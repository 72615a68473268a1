import Mathlib
import Toolpath.Proofs.Numeric.Spacing

/-! What a finite result tells. Its operands are finite too, it is a rounding without any double that
bounds the exact one, and if it is not among the least numbers it is off by at most one part in 2^53. -/
namespace Toolpath.Binary64
open Float.Model (Format UnpackedFloat)

/-- Infinite or no number. -/
def Beyond (u : UnpackedFloat) : Prop := u = .notANumber ∨ ∃ s, u = .infinity s

variable {x y : Float} {a b : UnpackedFloat} {q : ℚ} {num den : Nat}

theorem beyond_unpack (notFinite : isFinite x = false) : Beyond x.toModel.unpack :=
  unpack_notFinite _ (infinityCode_le notFinite)

theorem isFinite_pack (beyond : Beyond a) :
    isFinite (Float.ofModel (Float.Model.pack a)) = false := by
  rcases beyond with rfl | ⟨s, rfl⟩
  · decide
  · cases s <;> decide

theorem beyond_add (operand : Beyond a ∨ Beyond b) : Beyond (UnpackedFloat.add Format.binary64 a b) := by
  obtain (rfl | ⟨s, rfl⟩) | (rfl | ⟨s, rfl⟩) := operand
  · exact .inl rfl
  · cases b with
    | infinity t => cases s <;> cases t <;> simp [Beyond, UnpackedFloat.add]
    | notANumber | zero _ | finite _ _ _ _ => simp [Beyond, UnpackedFloat.add]
  · cases a <;> exact .inl rfl
  · cases a with
    | infinity t => cases s <;> cases t <;> simp [Beyond, UnpackedFloat.add]
    | notANumber | zero _ | finite _ _ _ _ => simp [Beyond, UnpackedFloat.add]

theorem beyond_mul (operand : Beyond a ∨ Beyond b) : Beyond (UnpackedFloat.mul Format.binary64 a b) := by
  obtain (rfl | ⟨s, rfl⟩) | (rfl | ⟨s, rfl⟩) := operand
  · exact .inl rfl
  · cases b <;> simp [Beyond, UnpackedFloat.mul]
  · cases a <;> exact .inl rfl
  · cases a <;> simp [Beyond, UnpackedFloat.mul]

theorem beyond_div (beyond : Beyond a) : Beyond (UnpackedFloat.div Format.binary64 a b) := by
  obtain rfl | ⟨s, rfl⟩ := beyond
  · exact .inl rfl
  · cases b <;> simp [Beyond, UnpackedFloat.div]

theorem isFinite_of_pack (finite : isFinite (Float.ofModel (Float.Model.pack b)) = true)
    (grows : Beyond x.toModel.unpack → Beyond b) : isFinite x = true := by
  by_contra notFinite
  rw [isFinite_pack (grows (beyond_unpack (Bool.not_eq_true _ ▸ notFinite)))] at finite
  cases finite

theorem isFinite_of_add (finite : isFinite (x + y) = true) : isFinite x = true ∧ isFinite y = true :=
  ⟨isFinite_of_pack finite (beyond_add ∘ .inl), isFinite_of_pack finite (beyond_add ∘ .inr)⟩

theorem isFinite_of_mul (finite : isFinite (x * y) = true) : isFinite x = true ∧ isFinite y = true :=
  ⟨isFinite_of_pack finite (beyond_mul ∘ .inl), isFinite_of_pack finite (beyond_mul ∘ .inr)⟩

theorem isFinite_of_div (finite : isFinite (x / y) = true) : isFinite x = true :=
  isFinite_of_pack finite beyond_div

/-! Errors. -/

/-- No number is rounded further away than zero. -/
theorem Rounds.distance_le (rounds : Rounds q x) : |value x - q| ≤ |q| := by
  obtain ⟨finite, zero⟩ := value_ofInt (by decide : |(0 : ℤ)| ≤ 2 ^ 53)
  have closest := rounds.closest _ finite
  rwa [zero, Int.cast_zero, zero_sub, abs_neg] at closest

/-- What is added to a number moves it by no more than four times as far. -/
theorem offset_near {c r t : Float} (finite : isFinite (c + r * t) = true) :
    |value (c + r * t) - value c| ≤ 4 * |value r * value t| := by
  obtain ⟨finiteC, finiteP⟩ := isFinite_of_add finite
  obtain ⟨finiteR, finiteT⟩ := isFinite_of_mul finiteP
  have product := ((mul_nearest finiteR finiteT).rounds finiteP).distance_le
  have sum := ((add_nearest finiteC finiteP).rounds finite).closest c finiteC
  rw [sub_add_cancel_left, abs_neg] at sum
  have size := abs_sub_abs_le_abs_sub (value (r * t)) (value r * value t)
  have moved := abs_sub_le (value (c + r * t)) (value c + value (r * t)) (value c)
  rw [add_sub_cancel_left] at moved
  linarith

theorem codeOfRatio_relative (positive : 0 < den) (finite : codeOfRatio num den < infinityCode)
    (normal : 2 ^ 52 * den ≤ num) :
    |(unitsOfCode (codeOfRatio num den) : ℚ) - num / den| ≤ num / den / 2 ^ 53 := by
  have steep : 2 ^ 52 * (den * 2 ^ scaleOfUnits (num / den)) ≤ num := by
    rcases Nat.eq_zero_or_pos (scaleOfUnits (num / den)) with flat | scaled
    · rwa [flat, Nat.pow_zero, Nat.mul_one]
    · exact le_num_of_scale positive scaled
  rw [unitsOfCode_codeOfRatio positive finite, roundedSignificand]
  generalize scaleOfUnits (num / den) = scale at *
  have width : 0 < den * 2 ^ scale := Nat.mul_pos positive (Nat.two_pow_pos _)
  have half := (NearestEven.iff_half.mp (roundQuotient_nearestEven num width)).1
  generalize roundQuotient num (den * 2 ^ scale) = rounded at *
  have place : (0 : ℚ) < 2 ^ scale := by positivity
  have denominator : (0 : ℚ) < den := Nat.cast_pos.mpr positive
  have steep : 2 ^ 52 * (den * 2 ^ scale) ≤ (num : ℚ) := by exact_mod_cast steep
  have least : 2 ^ 52 * 2 ^ scale ≤ (num : ℚ) / den := by
    rw [le_div_iff₀ denominator]
    linarith
  have distance : ((rounded * 2 ^ scale : Nat) : ℚ) - num / den =
      (((rounded : ℤ) : ℚ) - num / (den * 2 ^ scale : Nat)) * 2 ^ scale := by
    push_cast
    field_simp
  rw [distance, abs_mul, abs_of_pos place]
  calc _ ≤ 1 / 2 * 2 ^ scale := mul_le_mul_of_nonneg_right half place.le
    _ ≤ (num : ℚ) / den / 2 ^ 53 := by linarith

/-- A result of normal size is off by at most one part in 2^53. -/
theorem IsNearest.relative (result : IsNearest q x) (finite : isFinite x = true)
    (normal : 2 ^ 52 ≤ |q| * oneUnits) : |value x - q| ≤ |q| / 2 ^ 53 := by
  obtain ⟨negative, num, den, positive, rfl, rfl⟩ := result
  have one := oneUnits_cast_pos
  have width : (0 : ℚ) < den := Nat.cast_pos.mpr positive
  have small := codeOfRatio_lt_of_isFinite finite
  have size : |(signedUnits negative num : ℚ) / (den * oneUnits)| = num / den / oneUnits := by
    rw [abs_div, abs_signedUnits, abs_of_pos (mul_pos width one), div_div]
  rw [size, div_mul_cancel₀ _ one.ne', le_div_iff₀ width] at normal
  have near := codeOfRatio_relative positive small (by exact_mod_cast normal)
  rw [nearest_distance negative positive small, size, div_right_comm]
  exact div_le_div_of_nonneg_right near one.le

end Toolpath.Binary64
