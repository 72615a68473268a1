import Mathlib
import Toolpath.Geometry.Grid
import Toolpath.Proofs.Numeric.Exact

/-! The reference grid in exact arithmetic. Its lines stand on the multiples of the spacing, from the
last one before the box to the first one behind it, none left out and none drawn twice. As every
major place is a multiple of the spacing as well, a line stands on one or is a whole spacing away
from it, and the tolerance of the test for it, which is less than a spacing, decides nothing. -/
namespace Toolpath

namespace Exact

/-- The nearest integer; a half goes to the even one. -/
noncomputable def nearestEven (x : ℝ) : ℤ :=
  if Int.fract x < 1 / 2 ∨ Int.fract x = 1 / 2 ∧ Even ⌊x⌋ then ⌊x⌋ else ⌊x⌋ + 1

theorem nearestEven_intCast (n : ℤ) : nearestEven n = n := by
  simp [nearestEven]

noncomputable scoped instance : Whole ℝ where
  floor x := .ok ⌊x⌋
  ceiling x := .ok ⌈x⌉
  nearest x := .ok (nearestEven x)
  remainder x step :=
    if step = 0 then .error .outsideDomain else .ok (x - nearestEven (x / step) * step)

end Exact

namespace Grid
open Exact

/-- The whole multiples of a spacing. -/
def Multiple (spacing x : ℝ) : Prop := ∃ n : ℤ, x = n * spacing

/-- A range between two multiples, the narrowest one around a range of coordinates. -/
structure Snaps (spacing low high start stop : ℝ) : Prop where
  start : IsGreatest {x | Multiple spacing x ∧ x ≤ low} start
  stop : IsLeast {x | Multiple spacing x ∧ high ≤ x} stop

/-- Places on all multiples of a spacing in a range, each once and in increasing order; the major ones
are those on the multiples of `every`. -/
structure Rules (spacing every start stop : ℝ) (places : List (ℝ × Bool)) : Prop where
  mem_iff : ∀ x, x ∈ places.map Prod.fst ↔ Multiple spacing x ∧ start ≤ x ∧ x ≤ stop
  increasing : (places.map Prod.fst).Pairwise (· < ·)
  major_iff : ∀ place ∈ places, place.2 = true ↔ Multiple every place.1

variable {spacing every : ℝ} {a b : ℤ}

/-! Snapping. -/

section
variable (positive : 0 < spacing)
include positive

theorem snapDown_eq (low : ℝ) : snapDown low spacing = .ok (⌊low / spacing⌋ * spacing) := by
  rw [snapDown, quotient_eq positive.ne']
  rfl

theorem snapUp_eq (high : ℝ) : snapUp high spacing = .ok (⌈high / spacing⌉ * spacing) := by
  rw [snapUp, quotient_eq positive.ne']
  rfl

theorem snaps_around (low high : ℝ) :
    Snaps spacing low high (⌊low / spacing⌋ * spacing) (⌈high / spacing⌉ * spacing) := by
  constructor
  · refine ⟨⟨⟨_, rfl⟩, (le_div_iff₀ positive).mp (Int.floor_le _)⟩, ?_⟩
    rintro x ⟨⟨n, rfl⟩, below⟩
    have within : n ≤ ⌊low / spacing⌋ := Int.le_floor.mpr ((le_div_iff₀ positive).mpr below)
    exact mul_le_mul_of_nonneg_right (Int.cast_le.mpr within) positive.le
  · refine ⟨⟨⟨_, rfl⟩, (div_le_iff₀ positive).mp (Int.le_ceil _)⟩, ?_⟩
    rintro x ⟨⟨n, rfl⟩, above⟩
    have within : ⌈high / spacing⌉ ≤ n := Int.ceil_le.mpr ((div_le_iff₀ positive).mpr above)
    exact mul_le_mul_of_nonneg_right (Int.cast_le.mpr within) positive.le

end

/-! Major places. -/

theorem tolerance_eq : (tolerance : ℝ) = 1 / 10 ^ 9 := by
  rw [tolerance, ofInt_eq, ofInt_eq]
  norm_num

/-- What the nearest multiple of `every` leaves is nothing exactly on the multiples. -/
theorem rest_eq_zero_iff (positive : 0 < every) (x : ℝ) :
    x - nearestEven (x / every) * every = 0 ↔ Multiple every x := by
  constructor
  · intro nothing
    exact ⟨_, sub_eq_zero.mp nothing⟩
  · rintro ⟨n, rfl⟩
    rw [mul_div_cancel_right₀ _ positive.ne', nearestEven_intCast, sub_self]

/-- A multiple of a spacing that is wider than the tolerance is within it only if it is zero. -/
theorem within_tolerance_iff (apart : tolerance < spacing) {x : ℝ} (place : Multiple spacing x) :
    (x ≤ tolerance ∧ -tolerance ≤ x) ↔ x = 0 := by
  obtain ⟨n, rfl⟩ := place
  have tiny : (0 : ℝ) < tolerance := by
    rw [tolerance_eq]
    norm_num
  constructor
  · rintro ⟨upper, lower⟩
    by_contra nonzero
    have apart0 : n ≠ 0 := by
      rintro rfl
      simp at nonzero
    rcases lt_or_gt_of_ne apart0 with negative | positive
    · have : (n : ℝ) ≤ -1 := by exact_mod_cast Int.le_sub_one_of_lt negative
      nlinarith
    · have : (1 : ℝ) ≤ n := by exact_mod_cast positive
      nlinarith
  · intro zero
    rw [zero]
    constructor <;> linarith

open Classical in
theorem isMajor_eq (apart : tolerance < spacing) (positive : 0 < every)
    (whole : Multiple spacing every) {x : ℝ} (place : Multiple spacing x) :
    isMajor x every = .ok (decide (Multiple every x)) := by
  have rest : Multiple spacing (x - nearestEven (x / every) * every) := by
    obtain ⟨m, same⟩ := whole
    obtain ⟨n, rfl⟩ := place
    refine ⟨n - nearestEven (n * spacing / every) * m, ?_⟩
    push_cast
    rw [sub_mul, mul_assoc _ (m : ℝ), ← same]
  have divided : Whole.remainder x every = .ok (x - nearestEven (x / every) * every) :=
    if_neg positive.ne'
  rw [isMajor, divided]
  change Except.ok (decide _ && decide _) = _
  congr 1
  rw [← Bool.decide_and, zero_eq, zero_sub]
  exact decide_eq_decide.mpr
    ((within_tolerance_iff apart rest).trans (rest_eq_zero_iff positive x))

/-! The places of the lines. -/

open Classical in
/-- The places from the multiple `a` to the multiple `b`. -/
noncomputable def places (spacing every : ℝ) (a b : ℤ) : List (ℝ × Bool) :=
  (List.range (b - a + 1).toNat).map fun i : ℕ =>
    (((a + i : ℤ) : ℝ) * spacing, decide (Multiple every (((a + i : ℤ) : ℝ) * spacing)))

open Classical in
theorem places_rules (positive : 0 < spacing) :
    Rules spacing every (a * spacing) (b * spacing) (places spacing every a b) := by
  have ordered {m n : ℤ} : (m : ℝ) * spacing ≤ n * spacing ↔ m ≤ n := by
    rw [mul_le_mul_iff_left₀ positive, Int.cast_le]
  constructor
  · intro x
    rw [places, List.map_map, List.mem_map]
    constructor
    · rintro ⟨i, member, rfl⟩
      have bound := List.mem_range.mp member
      exact ⟨⟨a + i, rfl⟩, ordered.mpr (by omega), ordered.mpr (by omega)⟩
    · rintro ⟨⟨n, rfl⟩, first, last⟩
      rw [ordered] at first last
      refine ⟨(n - a).toNat, List.mem_range.mpr (by omega), ?_⟩
      have back : a + ((n - a).toNat : ℤ) = n := by omega
      change ((a + ((n - a).toNat : ℤ) : ℤ) : ℝ) * spacing = _
      rw [back]
  · rw [places, List.map_map, List.pairwise_map]
    refine List.pairwise_lt_range.imp ?_
    intro i j before
    change ((a + i : ℤ) : ℝ) * spacing < ((a + j : ℤ) : ℝ) * spacing
    apply mul_lt_mul_of_pos_right _ positive
    exact_mod_cast Int.add_lt_add_left (Int.ofNat_lt.mpr before) a
  · intro place member
    rw [places, List.mem_map] at member
    obtain ⟨i, -, rfl⟩ := member
    exact decide_eq_true_iff

theorem ticks_eq (apart : tolerance < spacing) (spaced : 0 < spacing) (positive : 0 < every)
    (whole : Multiple spacing every) :
    ticks (a * spacing) (b * spacing) spacing every = .ok (places spacing every a b) := by
  have count : ((b : ℝ) * spacing - a * spacing) / spacing = ((b - a : ℤ) : ℝ) := by
    rw [← sub_mul, mul_div_cancel_right₀ _ spaced.ne', Int.cast_sub]
  have nearest : Whole.nearest (((b - a : ℤ) : ℝ)) = .ok (b - a) :=
    congrArg Except.ok (nearestEven_intCast _)
  have tick (i : ℕ) : (a : ℝ) * spacing + Scalar.ofInt i * spacing = ((a + i : ℤ) : ℝ) * spacing := by
    rw [ofInt_eq, ← add_mul]
    push_cast
    rfl
  rw [ticks, quotient_eq spaced.ne', count]
  simp only [bind, Except.bind, nearest, tick, isMajor_eq apart positive whole ⟨_, rfl⟩]
  exact List.mapM_pure

/-- The lines of a grid stand on the multiples of its spacing from the greatest one that is not beyond
the least side of the box to the least one that is not short of its greatest side: the vertical ones
from left to right and then the horizontal ones upwards, each multiple once. Every line runs over the
whole range of the other axis, and it is major exactly on the multiples of `every`. -/
theorem lines_cover (box : Envelope ℝ) (apart : 1 / 10 ^ 9 < spacing) (positive : 0 < every)
    (whole : Multiple spacing every) :
    ∃ left right bottom top vertical horizontal,
      Snaps spacing box.minX box.maxX left right ∧ Snaps spacing box.minY box.maxY bottom top ∧
      Rules spacing every left right vertical ∧ Rules spacing every bottom top horizontal ∧
      lines box spacing every = .ok
        (vertical.map (fun (x, major) => ⟨x, bottom, x, top, major⟩) ++
          horizontal.map fun (y, major) => ⟨left, y, right, y, major⟩) := by
  have beyond : tolerance < spacing := by rwa [tolerance_eq]
  have spaced : 0 < spacing := lt_trans (by norm_num) apart
  refine ⟨_, _, _, _, _, _, snaps_around spaced _ _, snaps_around spaced _ _,
    places_rules spaced, places_rules spaced, ?_⟩
  rw [lines, snapDown_eq spaced, snapUp_eq spaced, snapDown_eq spaced, snapUp_eq spaced]
  simp only [bind, Except.bind, ticks_eq beyond spaced positive whole]
  rfl

/-- Around a box from 3 to 47 and from -12 to 18, with lines ten apart and every fifth of them major. -/
theorem lines_cover_ten :
    (1 / 10 ^ 9 < (10 : ℝ) ∧ 0 < (50 : ℝ) ∧ Multiple 10 50) ∧
      ∃ left right bottom top vertical horizontal,
        Snaps 10 3 47 left right ∧ Snaps 10 (-12) 18 bottom top ∧
        Rules 10 50 left right vertical ∧ Rules 10 50 bottom top horizontal ∧
        lines ⟨3, 47, -12, 18⟩ (10 : ℝ) 50 = .ok
          (vertical.map (fun (x, major) => ⟨x, bottom, x, top, major⟩) ++
            horizontal.map fun (y, major) => ⟨left, y, right, y, major⟩) := by
  have apart : 1 / 10 ^ 9 < (10 : ℝ) := by norm_num
  have positive : 0 < (50 : ℝ) := by norm_num
  have whole : Multiple 10 50 := ⟨5, by norm_num⟩
  exact ⟨⟨apart, positive, whole⟩, lines_cover ⟨3, 47, -12, 18⟩ apart positive whole⟩

end Grid

end Toolpath
