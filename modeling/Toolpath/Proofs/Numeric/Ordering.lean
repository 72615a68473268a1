import Mathlib
import Toolpath.Proofs.Numeric.Encoding

/-! How doubles compare. Finite doubles are ordered as their signed codes, so the two zeros are
equal and no other two finite doubles are. -/
namespace Toolpath.Binary64
open Float.Model (UnpackedFloat)

def signedCode (negative : Bool) (code : Nat) : Int := if negative then -(code : Int) else code

/-- Scale first and significand second is the order of codes. -/
theorem compare_then (a b : Nat) :
    (compare ((scaleOfCode a : Int) - 1074) ((scaleOfCode b : Int) - 1074)).then
      (compare (significandOfCode a) (significandOfCode b)) = compare a b := by
  have significandA := significandOfCode_eq a
  have significandB := significandOfCode_eq b
  have scaleA := scaleOfCode_eq a
  have scaleB := scaleOfCode_eq b
  generalize significandOfCode a = m at *
  generalize scaleOfCode a = s at *
  generalize significandOfCode b = n at *
  generalize scaleOfCode b = t at *
  rcases Nat.lt_trichotomy a b with less | same | greater
  · rw [compare_lt_iff_lt.mpr less]
    rcases Nat.lt_or_ge s t with below | notBelow
    · rw [compare_lt_iff_lt.mpr (by omega)]
      rfl
    · rw [compare_eq_iff_eq.mpr (by omega), compare_lt_iff_lt.mpr (by omega)]
      rfl
  · subst same
    rw [compare_eq_iff_eq.mpr (by omega), compare_eq_iff_eq.mpr (by omega),
      compare_eq_iff_eq.mpr rfl]
    rfl
  · rw [compare_gt_iff_gt.mpr greater]
    rcases Nat.lt_or_ge t s with above | notAbove
    · rw [compare_gt_iff_gt.mpr (by omega)]
      rfl
    · rw [compare_eq_iff_eq.mpr (by omega), compare_gt_iff_gt.mpr (by omega)]
      rfl

theorem compare_congr {a b : Nat} {p q : Int} (less : a < b ↔ p < q) (greater : b < a ↔ q < p) :
    compare a b = compare p q := by
  rcases Nat.lt_trichotomy a b with below | same | above
  · rw [compare_lt_iff_lt.mpr below, compare_lt_iff_lt.mpr (less.mp below)]
  · rw [compare_eq_iff_eq.mpr same, compare_eq_iff_eq.mpr (by omega)]
  · rw [compare_gt_iff_gt.mpr above, compare_gt_iff_gt.mpr (greater.mp above)]

theorem compare_unpacked (m n : Bool) (a b : Nat) :
    (unpacked m a).compare (unpacked n b) = some (compare (signedCode m a) (signedCode n b)) := by
  have positiveA := @significandOfCode_pos a
  have positiveB := @significandOfCode_pos b
  unfold unpacked
  -- each of the two is zero or not, and of either sign
  split <;> split <;> cases m <;> cases n <;>
    simp only [signOf, signedCode, UnpackedFloat.compare, compare_then, Nat.compare_swap, if_true,
      if_false, Bool.false_eq_true, Option.some.injEq]
  all_goals
    first
    | exact compare_congr (by omega) (by omega)
    | exact (compare_lt_iff_lt.mpr (by omega)).symm
    | exact (compare_gt_iff_gt.mpr (by omega)).symm
    | exact (compare_eq_iff_eq.mpr (by omega)).symm

theorem compare_ofCode (m n : Bool) {a b : Nat} (ha : a < infinityCode) (hb : b < infinityCode) :
    (ofCode m a).toModel.compare (ofCode n b).toModel =
      some (compare (signedCode m a) (signedCode n b)) := by
  rw [Float.Model.compare, unpack_toModel m ha, unpack_toModel n hb, compare_unpacked]

theorem beq_iff (x y : Float) : (x == y) = true ↔ x.toModel.compare y.toModel = some .eq := by
  change (x.toModel.compare y.toModel == some Ordering.eq) = true ↔ _
  rw [beq_iff_eq]

theorem lt_iff (x y : Float) : x < y ↔ x.toModel.compare y.toModel = some .lt := by
  change decide ((x.toModel.compare y.toModel == some Ordering.lt) = true) = true ↔ _
  rw [decide_eq_true_eq, beq_iff_eq]

theorem le_iff (x y : Float) : x ≤ y ↔ (x.toModel.compare y.toModel).any (·.isLE) = true := by
  change decide ((x.toModel.compare y.toModel).any (·.isLE) = true) = true ↔ _
  rw [decide_eq_true_eq]

theorem beq_ofCode (m n : Bool) {a b : Nat} (ha : a < infinityCode) (hb : b < infinityCode) :
    (ofCode m a == ofCode n b) = true ↔ signedCode m a = signedCode n b := by
  rw [beq_iff, compare_ofCode m n ha hb, Option.some.injEq, compare_eq_iff_eq]

theorem lt_ofCode (m n : Bool) {a b : Nat} (ha : a < infinityCode) (hb : b < infinityCode) :
    ofCode m a < ofCode n b ↔ signedCode m a < signedCode n b := by
  rw [lt_iff, compare_ofCode m n ha hb, Option.some.injEq, compare_lt_iff_lt]

theorem le_ofCode (m n : Bool) {a b : Nat} (ha : a < infinityCode) (hb : b < infinityCode) :
    ofCode m a ≤ ofCode n b ↔ signedCode m a ≤ signedCode n b := by
  rw [le_iff, compare_ofCode m n ha hb, Option.any_some, Ordering.isLE_iff_ne_gt,
    compare_gt_iff_gt, not_lt]

theorem not_lt_iff {x y : Float} (finiteX : isFinite x = true) (finiteY : isFinite y = true) :
    ¬ x < y ↔ y ≤ x := by
  obtain ⟨m, a, ha, rfl⟩ := exists_ofCode finiteX
  obtain ⟨n, b, hb, rfl⟩ := exists_ofCode finiteY
  rw [lt_ofCode m n ha hb, le_ofCode n m hb ha, not_lt]

theorem le_refl {x : Float} (finite : isFinite x = true) : x ≤ x := by
  obtain ⟨m, a, ha, rfl⟩ := exists_ofCode finite
  rw [le_ofCode m m ha ha]

theorem le_of_lt {x y : Float} (finiteX : isFinite x = true) (finiteY : isFinite y = true)
    (less : x < y) : x ≤ y := by
  obtain ⟨m, a, ha, rfl⟩ := exists_ofCode finiteX
  obtain ⟨n, b, hb, rfl⟩ := exists_ofCode finiteY
  rw [lt_ofCode m n ha hb] at less
  rw [le_ofCode m n ha hb]
  exact Int.le_of_lt less

theorem le_trans {x y z : Float} (finiteX : isFinite x = true) (finiteY : isFinite y = true)
    (finiteZ : isFinite z = true) (first : x ≤ y) (second : y ≤ z) : x ≤ z := by
  obtain ⟨l, a, ha, rfl⟩ := exists_ofCode finiteX
  obtain ⟨m, b, hb, rfl⟩ := exists_ofCode finiteY
  obtain ⟨n, c, hc, rfl⟩ := exists_ofCode finiteZ
  rw [le_ofCode l m ha hb] at first
  rw [le_ofCode m n hb hc] at second
  rw [le_ofCode l n ha hc]
  exact Int.le_trans first second

/-- Doubles neither of which is greater are equal as numbers, as the two zeros are. -/
theorem beq_of_le {x y : Float} (finiteX : isFinite x = true) (finiteY : isFinite y = true)
    (below : x ≤ y) (above : y ≤ x) : (x == y) = true := by
  obtain ⟨m, a, ha, rfl⟩ := exists_ofCode finiteX
  obtain ⟨n, b, hb, rfl⟩ := exists_ofCode finiteY
  rw [le_ofCode m n ha hb] at below
  rw [le_ofCode n m hb ha] at above
  rw [beq_ofCode m n ha hb]
  exact Int.le_antisymm below above

/-- Two finite doubles that equal a third equal each other. -/
theorem beq_of_beq {x y z : Float} (finiteX : isFinite x = true) (finiteY : isFinite y = true)
    (finiteZ : isFinite z = true) (left : (x == z) = true) (right : (y == z) = true) :
    (x == y) = true := by
  obtain ⟨m, a, ha, rfl⟩ := exists_ofCode finiteX
  obtain ⟨n, b, hb, rfl⟩ := exists_ofCode finiteY
  obtain ⟨k, c, hc, rfl⟩ := exists_ofCode finiteZ
  rw [beq_ofCode m k ha hc] at left
  rw [beq_ofCode n k hb hc] at right
  rw [beq_ofCode m n ha hb, left, right]

theorem beq_symm {x y : Float} (finiteX : isFinite x = true) (finiteY : isFinite y = true)
    (same : (x == y) = true) : (y == x) = true := by
  obtain ⟨m, a, ha, rfl⟩ := exists_ofCode finiteX
  obtain ⟨n, b, hb, rfl⟩ := exists_ofCode finiteY
  rw [beq_ofCode m n ha hb] at same
  rw [beq_ofCode n m hb ha, same]

/-- What equals a finite double is finite. -/
theorem isFinite_of_beq {x y : Float} (finite : isFinite y = true) (same : (x == y) = true) :
    isFinite x = true := by
  by_contra notFinite
  obtain ⟨n, b, hb, rfl⟩ := exists_ofCode finite
  have high := infinityCode_le (Bool.eq_false_iff.mpr notFinite)
  rw [beq_iff, Float.Model.compare, unpack_toModel n hb, unpacked] at same
  rcases unpack_notFinite x.toBits.toBitVec high with nan | ⟨s, infinite⟩
  · have unpack : x.toModel.unpack = .notANumber := nan
    rw [unpack] at same
    split at same <;> cases same
  · have unpack : x.toModel.unpack = .infinity s := infinite
    rw [unpack] at same
    split at same <;> cases s <;> cases n <;> cases same

theorem zero_eq : (Scalar.zero : Float) = ofCode false 0 := rfl

theorem unpack_zero (negative : Bool) :
    (ofCode negative 0).toModel.unpack = .zero (signOf negative) := by
  rw [unpack_toModel negative (by decide), unpacked_zero]

/-- A double that equals zero compares with everything, infinities and what is no number included,
as zero does. -/
theorem compare_of_beq_zero {x : Float} (zero : (x == (Scalar.zero : Float)) = true) (y : Float) :
    x.toModel.compare y.toModel = (Scalar.zero : Float).toModel.compare y.toModel := by
  rw [beq_iff] at zero
  rw [zero_eq, Float.Model.compare, unpack_zero] at *
  have isZero : ∃ s, x.toModel.unpack = .zero s := by
    generalize x.toModel.unpack = u at zero
    cases u with
    | notANumber => cases zero
    | infinity s => cases s <;> cases zero
    | zero s => exact ⟨s, rfl⟩
    | finite s _ _ _ => cases s <;> cases zero
  obtain ⟨s, isZero⟩ := isZero
  rw [Float.Model.compare, unpack_zero, isZero]
  generalize y.toModel.unpack = v
  cases v with
  | notANumber => rfl
  | infinity s => cases s <;> rfl
  | zero s => rfl
  | finite s _ _ _ => cases s <;> rfl

theorem lt_of_beq_zero {x : Float} (zero : (x == (Scalar.zero : Float)) = true) (y : Float) :
    x < y ↔ (Scalar.zero : Float) < y := by
  rw [lt_iff, lt_iff, compare_of_beq_zero zero]

end Toolpath.Binary64
