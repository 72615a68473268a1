import Mathlib
import Toolpath.Gcode.Emit
import Toolpath.Proofs.Decimal.ReadBack
import Toolpath.Proofs.Numeric.Ordering

/-! The numbers of a written program. A coordinate reads as the double nearest to its rounded
decimal, which is finite, and a constant reads as itself, zeros without their sign. -/
namespace Toolpath.Gcode
open Binary64 Decimal

/-- A coordinate as it is written, for a finite one. -/
def coordinateNumeral (places : Nat) (negative : Bool) (code : Nat) : Numeral :=
  ⟨negative && scaledMagnitude places (unitsOfCode code) != 0, places,
    scaledMagnitude places (unitsOfCode code)⟩

theorem coordinate_ofCode (places : Nat) (negative : Bool) {code : Nat}
    (finite : code < infinityCode) :
    coordinate places (ofCode negative code) = (coordinateNumeral places negative code).text := by
  rw [coordinate, ofFloat_ofCode negative finite]
  rfl

theorem numeral_value (n : Numeral) :
    n.value = nearest n.negative (n.digits * oneUnits) (10 ^ n.places) := by
  rw [Numeral.value, toFloat_eq]
  have num : (-(n.places : Int)).toNat = 0 := by omega
  have den : (-(-(n.places : Int))).toNat = n.places := by omega
  rw [num, den, Nat.pow_zero, Nat.mul_one]

theorem isFinite_nearest (negative : Bool) {num den : Nat}
    (finite : codeOfRatio num den < infinityCode) :
    isFinite (nearest negative num den) = true := isFinite_ofCode negative finite

theorem oneUnits_lt : oneUnits < 2 ^ greatestScale := by
  rw [oneUnits_eq]
  apply Nat.pow_lt_pow_right (by decide)
  decide

/-- Rounding a finite double to decimals does not reach infinity. -/
theorem isFinite_coordinate (places : Nat) (negative : Bool) {code : Nat}
    (finite : code < infinityCode) :
    isFinite (coordinateNumeral places negative code).value = true := by
  have tens : 0 < 10 ^ places := Nat.pow_pos (by decide)
  have bound := unitsOfCode_le finite
  have one := oneUnits_lt
  have upper := roundQuotient_upper (unitsOfCode code * 10 ^ places) oneUnits_pos
  rw [numeral_value]
  apply isFinite_nearest
  apply codeOfRatio_lt tens
  change 2 * (scaledMagnitude places (unitsOfCode code) * oneUnits) < _
  have magnitude : scaledMagnitude places (unitsOfCode code) =
    roundQuotient (unitsOfCode code * 10 ^ places) oneUnits := rfl
  have widened : oneUnits < 10 ^ places * 2 ^ greatestScale :=
    one.trans_le (Nat.le_mul_of_pos_left _ tens)
  have scaled : unitsOfCode code * 10 ^ places ≤
      (2 ^ 53 - 1) * (10 ^ places * 2 ^ greatestScale) := by
    calc unitsOfCode code * 10 ^ places ≤ (2 ^ 53 - 1) * 2 ^ greatestScale * 10 ^ places :=
          Nat.mul_le_mul_right _ bound
      _ = (2 ^ 53 - 1) * (10 ^ places * 2 ^ greatestScale) := by
          rw [mul_assoc, Nat.mul_comm (2 ^ greatestScale)]
  rw [magnitude]
  omega

/-- A constant as it is written, for a finite one. -/
def constantNumeral (negative : Bool) (code : Nat) : Numeral :=
  if isWhole (unitsOfCode code) then
    ⟨negative && unitsOfCode code != 0, 0, unitsOfCode code / oneUnits⟩
  else
    ⟨negative, (-(shortest (unitsOfCode code)).exponent).toNat,
      (shortest (unitsOfCode code)).digits * 10 ^ (shortest (unitsOfCode code)).exponent.toNat⟩

theorem constant_ofCode (negative : Bool) {code : Nat} (finite : code < infinityCode) :
    constant (ofCode negative code) = (constantNumeral negative code).text := by
  rw [constant, plain, ofFloat_ofCode negative finite]
  unfold constantNumeral
  simp only
  split
  · simp only [Numeral.text, withPlaces, if_true]
  · simp only [Numeral.text, positional_eq]

/-- A constant reads as itself, zeros without their sign. -/
theorem constant_value (negative : Bool) {code : Nat} (finite : code < infinityCode) :
    (constantNumeral negative code).value = ofCode (negative && code != 0) code := by
  have nonzero : (unitsOfCode code != 0) = (code != 0) := by
    have := @unitsOfCode_pos code
    rw [Bool.eq_iff_iff]
    simp only [bne_iff_ne]
    omega
  rw [numeral_value]
  unfold constantNumeral
  split
  · rename_i whole
    have exact : unitsOfCode code / oneUnits * oneUnits = unitsOfCode code :=
      Nat.div_mul_cancel (Nat.dvd_of_mod_eq_zero (by simpa [isWhole] using whole))
    simp only [exact, Nat.pow_zero, nonzero]
    exact nearest_units _ finite
  · rename_i fraction
    have positive : 0 < code := by
      rw [← unitsOfCode_pos]
      by_contra zero
      exact fraction (by simp [isWhole, show unitsOfCode code = 0 by omega])
    have filled : 0 < 10 ^ (-(shortest (unitsOfCode code)).exponent).toNat :=
      Nat.pow_pos (by decide)
    simp only [nearest, mul_assoc]
    rw [codeOfRatio_near finite filled (shortest_near positive), bne_iff_ne.mpr (by omega),
      Bool.and_true]

/-- What a written coordinate reads as. -/
def rounded (places : Nat) (x : Float) : Float := (float? (coordinate places x)).getD x

/-- What a written constant reads as. -/
def reread (x : Float) : Float := (float? (constant x)).getD x

theorem exists_coordinate (places : Nat) {x : Float} (finite : isFinite x = true) :
    ∃ n : Numeral, coordinate places x = n.text ∧ n.value = rounded places x ∧
      isFinite n.value = true := by
  obtain ⟨negative, code, below, rfl⟩ := exists_ofCode finite
  refine ⟨coordinateNumeral places negative code, coordinate_ofCode places negative below, ?_,
    isFinite_coordinate places negative below⟩
  rw [rounded, coordinate_ofCode places negative below, Numeral.float?_text]
  rfl

/-- A finite coordinate is written as a number. -/
theorem float?_coordinate (places : Nat) {x : Float} (finite : isFinite x = true) :
    float? (coordinate places x) = some (rounded places x) := by
  obtain ⟨n, text, value, _⟩ := exists_coordinate places finite
  rw [text, n.float?_text, value]

theorem exists_constant {x : Float} (finite : isFinite x = true) :
    ∃ n : Numeral, constant x = n.text ∧ n.value = reread x ∧ isFinite n.value = true := by
  obtain ⟨negative, code, below, rfl⟩ := exists_ofCode finite
  have value := constant_value negative below
  refine ⟨constantNumeral negative code, constant_ofCode negative below, ?_, ?_⟩
  · rw [reread, constant_ofCode negative below, Numeral.float?_text]
    rfl
  · rw [value]
    exact isFinite_ofCode _ below

theorem reread_ofCode (negative : Bool) {code : Nat} (below : code < infinityCode) :
    reread (ofCode negative code) = ofCode (negative && code != 0) code := by
  rw [reread, constant_ofCode negative below, Numeral.float?_text, Option.getD_some,
    constant_value negative below]

theorem isFinite_reread {x : Float} (finite : isFinite x = true) : isFinite (reread x) = true := by
  obtain ⟨n, _, value, finite⟩ := exists_constant finite
  rwa [value] at finite

/-- A constant reads as the same number. -/
theorem reread_beq {x : Float} (finite : isFinite x = true) : (reread x == x) = true := by
  obtain ⟨negative, code, below, rfl⟩ := exists_ofCode finite
  rw [reread_ofCode negative below, beq_ofCode _ _ below below]
  unfold signedCode
  by_cases zero : code = 0
  · simp [zero]
  · simp [zero]

theorem reread_nonnegative {x : Float} (finite : isFinite x = true) (nonnegative : 0 ≤ x) :
    ¬ reread x < 0 := by
  obtain ⟨negative, code, below, rfl⟩ := exists_ofCode finite
  rw [show (0 : Float) = ofCode false 0 from rfl] at nonnegative ⊢
  rw [le_ofCode _ _ (by decide) below] at nonnegative
  rw [reread_ofCode negative below, lt_ofCode _ _ below (by decide)]
  unfold signedCode at *
  cases negative
  · simp
  · by_cases zero : code = 0
    · simp [zero]
    · simp only [Bool.false_eq_true, if_false, if_true] at nonnegative
      omega

/-! No number ends a line. -/

theorem numeral_unbroken (n : Numeral) : '\n' ∉ n.text := fun member =>
  absurd (Numeral.isNumeric_of_mem member) (by decide)

theorem coordinate_unbroken (places : Nat) (x : Float) : '\n' ∉ coordinate places x := by
  unfold coordinate fixed
  cases ofFloat x with
  | nan => exact (by decide : '\n' ∉ "nan".toList)
  | infinite negative =>
    cases negative
    · exact (by decide : '\n' ∉ "inf".toList)
    · exact (by decide : '\n' ∉ "-inf".toList)
  | finite negative units => exact numeral_unbroken ⟨_, places, _⟩

theorem constant_unbroken {x : Float} (finite : isFinite x = true) : '\n' ∉ constant x := by
  obtain ⟨n, text, _, _⟩ := exists_constant finite
  rw [text]
  exact numeral_unbroken n

theorem pointWords_unbroken (places : Nat) (x y : Float) : '\n' ∉ pointWords places x y := by
  simp [pointWords, coordinate_unbroken]

end Toolpath.Gcode
