import Mathlib
import Toolpath.Proofs.Numeric.Closest
import Toolpath.Proofs.Numeric.Ordering

/-! Doubles as rational numbers. Finite doubles compare as their values do, and a result is the
rounding of the exact one: no finite double is closer to it. That alone bounds a result, between any
doubles that bound the exact one. -/
namespace Toolpath.Binary64
variable {x y z : Float} {q : ℚ} {s t : Bool} {u v num den : Nat}

/-- The number that a finite double is; anything else stands for zero here. -/
def value (x : Float) : ℚ :=
  match ofFloat x with
  | .finite negative units => signedUnits negative units / oneUnits
  | _ => 0

theorem value_eq (decoded : ofFloat x = .finite s u) : value x = signedUnits s u / oneUnits := by
  rw [value, decoded]

theorem value_ofCode (negative : Bool) {code : Nat} (finite : code < infinityCode) :
    value (ofCode negative code) = signedUnits negative (unitsOfCode code) / oneUnits :=
  value_eq (ofFloat_ofCode negative finite)

theorem oneUnits_cast_pos : (0 : ℚ) < oneUnits := Nat.cast_pos.mpr oneUnits_pos

theorem abs_signedUnits (negative : Bool) (units : Nat) :
    |(signedUnits negative units : ℚ)| = units := by
  cases negative <;> simp [signedUnits]

theorem abs_value (decoded : ofFloat x = .finite s u) : |value x| = u / oneUnits := by
  rw [value_eq decoded, abs_div, abs_signedUnits, Nat.abs_cast]

/-! Comparisons. -/

theorem unitsOfCode_le_iff {a b : Nat} (finiteA : a < infinityCode) (finiteB : b < infinityCode) :
    unitsOfCode a ≤ unitsOfCode b ↔ a ≤ b := by
  refine ⟨fun le => ?_, unitsOfCode_mono⟩
  have codes := codeOfRatio_mono Nat.one_pos le
  have first := codeOfRatio_units finiteA Nat.one_pos
  have second := codeOfRatio_units finiteB Nat.one_pos
  rw [Nat.mul_one] at first second
  rwa [first, second] at codes

theorem signedUnits_le_iff {a b : Nat} (finiteA : a < infinityCode) (finiteB : b < infinityCode) :
    signedUnits s (unitsOfCode a) ≤ signedUnits t (unitsOfCode b) ↔
      signedCode s a ≤ signedCode t b := by
  have upward := unitsOfCode_le_iff finiteA finiteB
  have downward := unitsOfCode_le_iff finiteB finiteA
  have positiveA := @unitsOfCode_pos a
  have positiveB := @unitsOfCode_pos b
  cases s <;> cases t <;> simp only [signedUnits, signedCode, if_true, Bool.false_eq_true, if_false] <;>
    omega

theorem le_iff_value (finiteX : isFinite x = true) (finiteY : isFinite y = true) :
    x ≤ y ↔ value x ≤ value y := by
  obtain ⟨m, a, finiteA, rfl⟩ := exists_ofCode finiteX
  obtain ⟨n, b, finiteB, rfl⟩ := exists_ofCode finiteY
  rw [le_ofCode m n finiteA finiteB, value_ofCode m finiteA, value_ofCode n finiteB,
    div_le_div_iff_of_pos_right oneUnits_cast_pos, Int.cast_le, signedUnits_le_iff finiteA finiteB]

theorem lt_iff_value (finiteX : isFinite x = true) (finiteY : isFinite y = true) :
    x < y ↔ value x < value y := by
  rw [← not_iff_not, not_lt_iff finiteX finiteY, le_iff_value finiteY finiteX, not_lt]

theorem beq_iff_value (finiteX : isFinite x = true) (finiteY : isFinite y = true) :
    (x == y) = true ↔ value x = value y := by
  have both : value x = value y ↔ value x ≤ value y ∧ value y ≤ value x := le_antisymm_iff
  rw [both, ← le_iff_value finiteX finiteY, ← le_iff_value finiteY finiteX]
  obtain ⟨m, a, finiteA, rfl⟩ := exists_ofCode finiteX
  obtain ⟨n, b, finiteB, rfl⟩ := exists_ofCode finiteY
  rw [beq_ofCode m n finiteA finiteB, le_ofCode m n finiteA finiteB, le_ofCode n m finiteB finiteA,
    le_antisymm_iff]

/-! Rounding. -/

/-- The double is a rounding of a number: no finite one is closer. -/
structure Rounds (q : ℚ) (x : Float) : Prop where
  finite : isFinite x = true
  closest : ∀ z, isFinite z = true → |value x - q| ≤ |value z - q|

namespace Rounds

theorem le (rounds : Rounds q x) (finite : isFinite z = true) (bound : q ≤ value z) :
    value x ≤ value z := by
  have closest := rounds.closest z finite
  rw [abs_of_nonneg (sub_nonneg.mpr bound)] at closest
  linarith [le_abs_self (value x - q)]

theorem ge (rounds : Rounds q x) (finite : isFinite z = true) (bound : value z ≤ q) :
    value z ≤ value x := by
  have closest := rounds.closest z finite
  rw [abs_of_nonpos (sub_nonpos.mpr bound)] at closest
  linarith [neg_abs_le (value x - q)]

end Rounds

/-- A quotient that some finite double bounds does not round to infinity. -/
theorem codeOfRatio_bounded (bound : ofFloat z = .finite s v) (positive : 0 < den)
    (below : num ≤ v * den) : codeOfRatio num den < infinityCode := by
  obtain ⟨code, finite, -, rfl⟩ := eq_ofCode_of_ofFloat bound
  have mono := codeOfRatio_mono positive below
  rw [codeOfRatio_units finite positive] at mono
  exact mono.trans_lt finite

theorem codeOfRatio_lt_of_isFinite {negative : Bool}
    (finite : isFinite (nearest negative num den) = true) : codeOfRatio num den < infinityCode := by
  have most : codeOfRatio num den ≤ infinityCode := by
    rw [codeOfRatio_eq]
    exact Nat.min_le_right _ _
  refine lt_of_le_of_ne most fun infinite => ?_
  obtain ⟨s, units, decoded⟩ := isFinite_iff.mp finite
  obtain ⟨code, below, same, -⟩ := eq_ofCode_of_ofFloat decoded
  have codes := congrArg codeOfFloat same
  rw [nearest, codeOfFloat_ofCode _ most, codeOfFloat_ofCode _ below.le] at codes
  omega

/-- How far a rounded quotient is from the exact one, in units. -/
theorem nearest_distance (negative : Bool) (positive : 0 < den)
    (finite : codeOfRatio num den < infinityCode) :
    |value (nearest negative num den) - signedUnits negative num / (den * oneUnits)| =
      |(unitsOfCode (codeOfRatio num den) : ℚ) - num / den| / oneUnits := by
  have one := oneUnits_cast_pos
  have width : (0 : ℚ) < den := Nat.cast_pos.mpr positive
  rw [nearest, value_ofCode negative finite, ← abs_of_pos one, ← abs_div, abs_of_pos one]
  cases negative
  · simp only [signedUnits, Bool.false_eq_true, if_false, Int.cast_natCast]
    congr 1
    field_simp
  · simp only [signedUnits, if_true, Int.cast_neg, Int.cast_natCast]
    rw [← abs_neg]
    congr 1
    field_simp
    ring

theorem nearest_rounds (negative : Bool) (positive : 0 < den)
    (finite : codeOfRatio num den < infinityCode) :
    Rounds (signedUnits negative num / (den * oneUnits)) (nearest negative num den) := by
  have one := oneUnits_cast_pos
  have width : (0 : ℚ) < den := Nat.cast_pos.mpr positive
  refine ⟨isFinite_ofCode negative finite, fun z finiteZ => ?_⟩
  obtain ⟨t, code, below, rfl⟩ := exists_ofCode finiteZ
  -- the signs only widen the distance to another double
  have other : |(unitsOfCode code : ℚ) - num / den| / oneUnits ≤
      |value (ofCode t code) - signedUnits negative num / (den * oneUnits)| := by
    refine (le_of_eq ?_).trans (abs_abs_sub_abs_le _ _)
    rw [abs_value (ofFloat_ofCode t below), abs_div, abs_signedUnits, abs_of_pos (mul_pos width one),
      ← abs_of_pos one, ← abs_div, abs_of_pos one]
    congr 1
    field_simp
  rw [nearest_distance negative positive finite]
  exact (div_le_div_of_nonneg_right (codeOfRatio_closest positive finite code) one.le).trans other

theorem signedUnits_natAbs {n : Int} (sign : n ≠ 0 → s = decide (n < 0)) :
    signedUnits s n.natAbs = n := by
  unfold signedUnits
  by_cases zero : n = 0
  · simp [zero]
  · simp only [sign zero, decide_eq_true_eq]
    omega

theorem signedUnits_xor (s t : Bool) (u v : Nat) :
    (signedUnits (s ^^ t) (u * v) : ℚ) = signedUnits s u * signedUnits t v := by
  cases s <;> cases t <;> simp [signedUnits]

/-- The double is what a number is rounded to, infinite if that is too large. -/
def IsNearest (q : ℚ) (x : Float) : Prop := ∃ (negative : Bool) (num den : Nat), 0 < den ∧
  q = signedUnits negative num / (den * oneUnits) ∧ x = nearest negative num den

namespace IsNearest

/-- A finite one is a rounding. -/
theorem rounds (result : IsNearest q x) (finite : isFinite x = true) : Rounds q x := by
  obtain ⟨negative, num, den, positive, rfl, rfl⟩ := result
  exact nearest_rounds negative positive (codeOfRatio_lt_of_isFinite finite)

/-- So is one of a number that some double bounds. -/
theorem rounds_bounded (result : IsNearest q x) (finite : isFinite z = true)
    (bounded : |q| ≤ |value z|) : Rounds q x := by
  obtain ⟨negative, num, den, positive, rfl, rfl⟩ := result
  obtain ⟨s, v, decoded⟩ := isFinite_iff.mp finite
  have one := oneUnits_cast_pos
  have width : (0 : ℚ) < den := Nat.cast_pos.mpr positive
  have below : num ≤ v * den := by
    rw [abs_value decoded, abs_div, abs_signedUnits, abs_of_pos (mul_pos width one),
      div_le_div_iff₀ (mul_pos width one) one, ← mul_assoc] at bounded
    exact_mod_cast le_of_mul_le_mul_right bounded one
  exact nearest_rounds negative positive (codeOfRatio_bounded decoded positive below)

end IsNearest

section
variable (finiteX : isFinite x = true) (finiteY : isFinite y = true)
include finiteX finiteY

theorem add_nearest : IsNearest (value x + value y) (x + y) := by
  obtain ⟨s, u, decodedX⟩ := isFinite_iff.mp finiteX
  obtain ⟨t, v, decodedY⟩ := isFinite_iff.mp finiteY
  refine ⟨_, _, 1, Nat.one_pos, ?_, add_eq decodedX decodedY⟩
  rw [signedUnits_natAbs fun nonzero => if_neg nonzero, value_eq decodedX, value_eq decodedY]
  push_cast
  ring

theorem sub_nearest : IsNearest (value x - value y) (x - y) := by
  obtain ⟨t, v, decodedY⟩ := isFinite_iff.mp finiteY
  obtain ⟨w, decodedW, sum⟩ := sub_eq x decodedY
  have opposite : value w = -value y := by
    rw [value_eq decodedW, value_eq decodedY]
    cases t <;> simp [signedUnits, neg_div]
  rw [sum, sub_eq_add_neg, ← opposite]
  exact add_nearest finiteX (isFinite_iff.mpr ⟨_, _, decodedW⟩)

theorem mul_nearest : IsNearest (value x * value y) (x * y) := by
  obtain ⟨s, u, decodedX⟩ := isFinite_iff.mp finiteX
  obtain ⟨t, v, decodedY⟩ := isFinite_iff.mp finiteY
  refine ⟨_, _, oneUnits, oneUnits_pos, ?_, mul_eq decodedX decodedY⟩
  rw [signedUnits_xor, value_eq decodedX, value_eq decodedY]
  ring

theorem div_nearest (nonzero : value y ≠ 0) : IsNearest (value x / value y) (x / y) := by
  obtain ⟨s, u, decodedX⟩ := isFinite_iff.mp finiteX
  obtain ⟨t, v, decodedY⟩ := isFinite_iff.mp finiteY
  have positive : 0 < v := by
    rw [Nat.pos_iff_ne_zero]
    rintro rfl
    exact nonzero (by rw [value_eq decodedY, signedUnits_zero, Int.cast_zero, zero_div])
  have width : (0 : ℚ) < v := Nat.cast_pos.mpr positive
  have one := oneUnits_cast_pos
  refine ⟨_, _, v, positive, ?_, div_eq decodedX decodedY positive.ne'⟩
  rw [value_eq decodedX, value_eq decodedY, div_div_div_cancel_right₀ one.ne']
  cases s <;> cases t <;> simp [signedUnits] <;> field_simp

variable (finiteZ : isFinite z = true)
include finiteZ

/-- A sum is the rounding of the exact one, which some double has to bound. -/
theorem add_rounds (bounded : |value x + value y| ≤ |value z|) :
    Rounds (value x + value y) (x + y) :=
  (add_nearest finiteX finiteY).rounds_bounded finiteZ bounded

theorem sub_rounds (bounded : |value x - value y| ≤ |value z|) :
    Rounds (value x - value y) (x - y) :=
  (sub_nearest finiteX finiteY).rounds_bounded finiteZ bounded

theorem mul_rounds (bounded : |value x * value y| ≤ |value z|) :
    Rounds (value x * value y) (x * y) :=
  (mul_nearest finiteX finiteY).rounds_bounded finiteZ bounded

theorem div_rounds (nonzero : value y ≠ 0) (bounded : |value x / value y| ≤ |value z|) :
    Rounds (value x / value y) (x / y) :=
  (div_nearest finiteX finiteY nonzero).rounds_bounded finiteZ bounded

end

/-! Doubles of short significands. -/

theorem codeOfRatio_short_lt {q scale : Nat} (short : q ≤ 2 ^ 53) (places : scale ≤ 2044) :
    codeOfRatio (q * 2 ^ scale) 1 < infinityCode := by
  apply codeOfRatio_lt Nat.one_pos
  calc 2 * (q * 2 ^ scale) ≤ 2 * (2 ^ 53 * 2 ^ 2044) :=
        Nat.mul_le_mul_left 2 (Nat.mul_le_mul short (Nat.pow_le_pow_right (by decide) places))
    _ < (2 ^ 54 - 1) * (1 * 2 ^ greatestScale) := by
        rw [show greatestScale = 2044 + 1 from rfl, Nat.pow_succ]
        have := Nat.two_pow_pos 2044
        omega

/-- The double of a whole number of 53 binary places, scaled in units. -/
theorem value_short {n : ℤ} {scale : Nat} (short : |n| ≤ 2 ^ 53) (places : scale ≤ 2044) :
    isFinite (ofCode (decide (n < 0)) (codeOfRatio (n.natAbs * 2 ^ scale) 1)) = true ∧
      value (ofCode (decide (n < 0)) (codeOfRatio (n.natAbs * 2 ^ scale) 1)) =
        n * 2 ^ scale / 2 ^ unitScale := by
  rw [Int.abs_eq_natAbs] at short
  have short : n.natAbs ≤ 2 ^ 53 := by omega
  have finite := codeOfRatio_short_lt short places
  refine ⟨isFinite_ofCode _ finite, ?_⟩
  rw [value_ofCode _ finite, unitsOfCode_codeOfRatio_short short finite, signedUnits_mul,
    signedUnits_natAbs fun _ => rfl, oneUnits_eq]
  push_cast
  rfl

theorem ofInt_eq (n : ℤ) : ofInt n = nearest (decide (n < 0)) (n.natAbs * 2 ^ unitScale) 1 := by
  unfold ofInt
  split
  · rename_i zero
    rw [zero, Int.natAbs_zero, Nat.zero_mul, nearest, codeOfRatio_zero (by decide)]
    rfl
  · have long : 1022 ≠ 0 → 2 ^ 52 * 1 ≤ n.natAbs <<< 52 := by
      intro
      rw [Nat.shiftLeft_eq]
      omega
    rw [codeOfScaled_eq Nat.one_pos long, Nat.shiftLeft_eq, Nat.mul_assoc, ← Nat.pow_add,
      show 52 + 1022 = unitScale from rfl, nearest]

/-- Every integer is rounded. -/
theorem ofInt_nearest (n : ℤ) : IsNearest n (ofInt n) := by
  refine ⟨_, _, 1, Nat.one_pos, ?_, ofInt_eq n⟩
  have one := oneUnits_cast_pos
  rw [← oneUnits_eq, signedUnits_mul, signedUnits_natAbs fun _ => rfl]
  push_cast
  field_simp

/-- Integers of 53 binary places are doubles. -/
theorem value_ofInt {n : ℤ} (short : |n| ≤ 2 ^ 53) : isFinite (ofInt n) = true ∧ value (ofInt n) = n := by
  rw [ofInt_eq, nearest]
  obtain ⟨finite, exact⟩ := value_short short (by decide : unitScale ≤ 2044)
  refine ⟨finite, exact.trans ?_⟩
  rw [mul_div_assoc, div_self (pow_ne_zero _ two_ne_zero), mul_one]

/-- Numbers of 53 binary places times a power of two are doubles, unless that is too small or too
large. -/
theorem exists_double {n k : ℤ} (short : |n| ≤ 2 ^ 53) (low : -1074 ≤ k) (high : k ≤ 970) :
    ∃ z, isFinite z = true ∧ value z = n * 2 ^ k := by
  have one : unitScale = 1074 := rfl
  obtain ⟨scale, rfl⟩ : ∃ scale : Nat, k = scale - unitScale := ⟨(k + 1074).toNat, by omega⟩
  obtain ⟨finite, exact⟩ := value_short short (by omega : scale ≤ 2044)
  refine ⟨_, finite, exact.trans ?_⟩
  rw [zpow_sub₀ two_ne_zero, zpow_natCast, zpow_natCast, mul_div_assoc]

end Toolpath.Binary64
