import Mathlib
import Toolpath.Proofs.Decimal.Numeral
import Toolpath.Proofs.Numeric.Nearest

/-! Reading back what was written. A written number is rounded once, and the shortest digits of a
double lie in the interval that rounds to it: the search for them ends at the latest where the
double is a multiple itself. -/
namespace Toolpath

namespace Binary64

theorem scaleOfUnits_unitsOfCode (code : Nat) :
    scaleOfUnits (unitsOfCode code) = scaleOfCode code := by
  have above := @le_significandOfCode code
  have below := significandOfCode_lt code
  rw [unitsOfCode, Nat.shiftLeft_eq]
  rcases Nat.eq_zero_or_pos (scaleOfCode code) with flat | steep
  · rw [flat, Nat.pow_zero, Nat.mul_one, scaleOfUnits_small below]
  · apply scaleOfUnits_eq
    · rw [Nat.pow_add]
      exact Nat.mul_le_mul_right _ (above steep)
    · rw [Nat.pow_add]
      exact Nat.mul_lt_mul_of_pos_right below (Nat.two_pow_pos _)

end Binary64

namespace Decimal
open Binary64

theorem two_pow_le_ten_pow (n : Nat) : 2 ^ (3 * n) ≤ 10 ^ n := by
  rw [Nat.pow_mul]
  exact Nat.pow_le_pow_left (by decide) n

/-- Reading rounds the written value once, however far out its exponent is. -/
theorem toFloat_eq (negative : Bool) (digits : Nat) (exponent : Int) :
    toFloat negative digits exponent =
    nearest negative (digits * 10 ^ exponent.toNat * oneUnits) (10 ^ (-exponent).toNat) := by
  have tens : 0 < 10 ^ (-exponent).toNat := Nat.pow_pos (by decide)
  have vanishes : ∀ num den, 2 * num < den → nearest negative 0 1 = nearest negative num den := by
    intro num den h
    rw [nearest, nearest, codeOfRatio_zero h, codeOfRatio_zero (by decide)]
  unfold toFloat
  split
  · rename_i zero
    apply vanishes
    simp [zero]
  · rename_i nonzero
    split
    · rename_i large
      have den : (-exponent).toNat = 0 := by omega
      have reach : 2 ^ 53 * (1 * 2 ^ greatestScale) ≤ digits * 10 ^ exponent.toNat * oneUnits := by
        have wide : 2 ^ (53 + greatestScale) ≤ 2 ^ (3 * exponent.toNat) * 2 ^ unitScale := by
          rw [← Nat.pow_add]
          apply Nat.pow_le_pow_right (by decide)
          have greatest : greatestScale = 2045 := rfl
          have one : unitScale = 1074 := rfl
          omega
        rw [one_mul, ← Nat.pow_add, oneUnits_eq]
        apply wide.trans
        apply Nat.mul_le_mul_right
        exact (two_pow_le_ten_pow _).trans (Nat.le_mul_of_pos_left _ (Nat.pos_of_ne_zero nonzero))
      rw [den, Nat.pow_zero, infiniteValue, nearest, codeOfRatio_infinite Nat.one_pos reach]
    · split
      · rename_i small
        have num : exponent.toNat = 0 := by omega
        apply vanishes
        rw [num, Nat.pow_zero, Nat.mul_one, oneUnits_eq]
        have top : digits < 2 ^ (digits.log2 + 1) := Nat.lt_log2_self
        have one : unitScale = 1074 := rfl
        calc 2 * (digits * 2 ^ unitScale) < 2 * (2 ^ (digits.log2 + 1) * 2 ^ unitScale) := by
              have := Nat.two_pow_pos unitScale
              gcongr
          _ = 2 ^ (1 + (digits.log2 + 1 + unitScale)) := by
            rw [← Nat.pow_add, Nat.pow_add 2 1, Nat.pow_one]
          _ ≤ 2 ^ (3 * (-exponent).toNat) := Nat.pow_le_pow_right (by decide) (by omega)
          _ ≤ 10 ^ (-exponent).toNat := two_pow_le_ten_pow _
      · split
        · rename_i whole
          have den : (-exponent).toNat = 0 := by omega
          rw [den]
          rfl
        · rename_i fraction
          have num : exponent.toNat = 0 := by omega
          rw [num, Nat.pow_zero, Nat.mul_one]
          rfl

theorem powerOfTen_eq (exponent : Int) :
    powerOfTen exponent = (4 * (10 ^ exponent.toNat * oneUnits), 10 ^ (-exponent).toNat) := by
  unfold powerOfTen
  split
  · have den : (-exponent).toNat = 0 := by omega
    rw [den, Nat.pow_zero, Nat.mul_left_comm]
    rfl
  · have num : exponent.toNat = 0 := by omega
    rw [num, Nat.pow_zero, Nat.one_mul]
    rfl

/-- What lies in the interval around a double reads as it. -/
theorem near_of_admits {code num den candidate : Nat} (filled : 0 < den)
    (h : (ReadingInterval.ofUnits (unitsOfCode code)).admits (4 * num) den candidate = true) :
    Near code (candidate * num) den := by
  have width : 0 < den * 2 ^ scaleOfCode code := Nat.mul_pos filled (Nat.two_pow_pos _)
  have units : unitsOfCode code = significandOfCode code * 2 ^ scaleOfCode code := by
    rw [unitsOfCode, Nat.shiftLeft_eq]
  have even : unitsOfCode code >>> scaleOfCode code = significandOfCode code := by
    rw [units, Nat.shiftRight_eq_div_pow, Nat.mul_div_cancel _ (Nat.two_pow_pos _)]
  have least : unitsOfCode code = 1 <<< (scaleOfCode code + 52) ↔
      significandOfCode code = 2 ^ 52 := by
    rw [units, Nat.one_shiftLeft, Nat.pow_add, Nat.mul_comm (2 ^ scaleOfCode code)]
    exact Nat.mul_left_inj (Nat.two_pow_pos _).ne'
  have step : (1 <<< scaleOfCode code : Nat) = 2 ^ scaleOfCode code := Nat.one_shiftLeft _
  -- the ends of the interval, in quarters of a unit and multiplied by the divisor
  have middle : 4 * unitsOfCode code * den =
      4 * (significandOfCode code * (den * 2 ^ scaleOfCode code)) := by
    rw [units]
    ring
  have scaled : candidate * (4 * num) = 4 * (candidate * num) := Nat.mul_left_comm _ _ _
  have drop : ∀ k, (4 * unitsOfCode code - k * 2 ^ scaleOfCode code) * den =
      4 * (significandOfCode code * (den * 2 ^ scaleOfCode code)) -
        k * (den * 2 ^ scaleOfCode code) := by
    intro k
    rw [Nat.sub_mul, middle, mul_assoc k, Nat.mul_comm (2 ^ scaleOfCode code)]
  have rise : (4 * unitsOfCode code + 2 * 2 ^ scaleOfCode code) * den =
      4 * (significandOfCode code * (den * 2 ^ scaleOfCode code)) +
        2 * (den * 2 ^ scaleOfCode code) := by
    rw [Nat.add_mul, middle, mul_assoc 2, Nat.mul_comm (2 ^ scaleOfCode code)]
  have lowest :
      (4 * unitsOfCode code - if significandOfCode code = 2 ^ 52 ∧ 0 < scaleOfCode code then
      2 ^ scaleOfCode code else 2 * 2 ^ scaleOfCode code) * den =
      4 * (significandOfCode code * (den * 2 ^ scaleOfCode code)) -
        if significandOfCode code = 2 ^ 52 ∧ 0 < scaleOfCode code then den * 2 ^ scaleOfCode code
        else 2 * (den * 2 ^ scaleOfCode code) := by
    split
    · simpa using drop 1
    · exact drop 2
  simp only [ReadingInterval.admits, ReadingInterval.ofUnits, scaleOfUnits_unitsOfCode, even, least,
    step, scaled, rise, ← Bool.decide_and, decide_eq_true_eq, lowest, beq_iff_eq] at h
  clear rise drop middle lowest scaled
  refine ⟨?_, ?_, ?_, ?_⟩
  all_goals
    generalize significandOfCode code * (den * 2 ^ scaleOfCode code) = middle at *
    generalize den * 2 ^ scaleOfCode code = width at *
    rcases Nat.mod_two_eq_zero_or_one (significandOfCode code) with even | odd
    · rw [if_pos even, decide_eq_true_eq] at h
      split at h <;> omega
    · rw [if_neg (by omega), decide_eq_true_eq] at h
      split at h <;> omega

theorem multiple?_admits {interval : ReadingInterval} {num den candidate : Nat}
    (found : interval.multiple? num den = some candidate) :
    interval.admits num den candidate = true := by
  unfold ReadingInterval.multiple? at found
  simp only at found
  split at found
  · cases found
    assumption
  · split at found
    · cases found
      assumption
    · split at found
      · cases found
        assumption
      · cases found

/-- The value itself lies in the interval, and inside it. -/
theorem admits_value {units num den candidate : Nat} (positive : 0 < units) (filled : 0 < den)
    (same : candidate * num = 4 * units * den) :
    (ReadingInterval.ofUnits units).admits num den candidate = true := by
  have step : 0 < 1 <<< scaleOfUnits units := by
    rw [Nat.one_shiftLeft]
    exact Nat.two_pow_pos _
  have low : (ReadingInterval.ofUnits units).low < 4 * units := by
    simp only [ReadingInterval.ofUnits]
    split <;> omega
  have high : 4 * units < (ReadingInterval.ofUnits units).high := by
    simp only [ReadingInterval.ofUnits]
    omega
  have lower := Nat.mul_lt_mul_of_pos_right low filled
  have upper := Nat.mul_lt_mul_of_pos_right high filled
  unfold ReadingInterval.admits
  simp only [same]
  split <;> simp <;> omega

/-- Every double is a multiple of the power of ten at which the search ends. -/
theorem finest_multiple {units : Nat} (positive : 0 < units) :
    ∃ candidate, candidate ≠ 0 ∧
      (ReadingInterval.ofUnits units).multiple? (powerOfTen (-unitScale)).1
      (powerOfTen (-unitScale)).2 = some candidate := by
  have num : (powerOfTen (-unitScale)).1 = 4 * oneUnits := by
    rw [powerOfTen_eq]
    simp [show (-(unitScale : Int)).toNat = 0 by omega]
  have den : (powerOfTen (-unitScale)).2 = 10 ^ unitScale := by
    rw [powerOfTen_eq]
    simp
  have same : units * 5 ^ unitScale * (4 * oneUnits) = 4 * units * 10 ^ unitScale := by
    rw [oneUnits_eq, show (10 : Nat) = 5 * 2 from rfl, Nat.mul_pow]
    generalize (5 : Nat) ^ unitScale = five
    generalize (2 : Nat) ^ unitScale = two
    ring
  have nearest : roundQuotient (4 * units * 10 ^ unitScale) (4 * oneUnits) =
      units * 5 ^ unitScale := by
    rw [← same]
    exact roundQuotient_mul _ (Nat.mul_pos (by decide) oneUnits_pos)
  refine ⟨units * 5 ^ unitScale, (Nat.mul_pos positive (Nat.pow_pos (by decide))).ne', ?_⟩
  rw [num, den, ReadingInterval.multiple?]
  have value : (ReadingInterval.ofUnits units).value = 4 * units := rfl
  simp only [value, nearest]
  rw [if_pos (admits_value positive (Nat.pow_pos (by decide)) same)]

theorem searchShortest_admits {units : Nat} (positive : 0 < units) {fuel : Nat} (enough : 0 < fuel)
    {exponent : Int} (ends : exponent = fuel - 1 - unitScale) :
    (ReadingInterval.ofUnits units).admits
      (powerOfTen (searchShortest (.ofUnits units) fuel exponent).exponent).1
      (powerOfTen (searchShortest (.ofUnits units) fuel exponent).exponent).2
      (searchShortest (.ofUnits units) fuel exponent).digits = true := by
  induction fuel generalizing exponent with
  | zero => omega
  | succ fuel ih =>
    have goOn (h : 0 < fuel) := ih h (show exponent - 1 = fuel - 1 - unitScale by omega)
    have stop : fuel = 0 → ∃ candidate, candidate ≠ 0 ∧ (ReadingInterval.ofUnits units).multiple?
        (powerOfTen exponent).1 (powerOfTen exponent).2 = some candidate := by
      rintro rfl
      rw [show exponent = -unitScale by omega]
      exact finest_multiple positive
    simp only [searchShortest]
    split
    · rename_i digits found
      split
      · rename_i zero
        apply goOn
        by_contra last
        obtain ⟨candidate, nonzero, found'⟩ := stop (by omega)
        rw [found, Option.some.injEq] at found'
        omega
      · exact multiple?_admits found
    · rename_i notFound
      apply goOn
      by_contra last
      obtain ⟨candidate, _, found⟩ := stop (by omega)
      rw [notFound] at found
      cases found

/-- The shortest digits of a double read back as it. -/
theorem shortest_near {code : Nat} (positive : 0 < code) :
    Near code ((shortest (unitsOfCode code)).digits *
      (10 ^ (shortest (unitsOfCode code)).exponent.toNat * oneUnits))
      (10 ^ (-(shortest (unitsOfCode code)).exponent).toNat) := by
  have nonzero := unitsOfCode_pos.mpr positive
  have begin : -1074 ≤ coarseExponent (unitsOfCode code) := by
    unfold coarseExponent
    omega
  have one : unitScale = 1074 := rfl
  have admitted :=
    @searchShortest_admits _ nonzero (coarseExponent (unitsOfCode code) + 1075).toNat (by omega)
    (coarseExponent (unitsOfCode code)) (by omega)
  rw [powerOfTen_eq] at admitted
  rw [shortest, if_neg (by omega)]
  exact near_of_admits (Nat.pow_pos (by decide)) admitted

end Decimal

end Toolpath
