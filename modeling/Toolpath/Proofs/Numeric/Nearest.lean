import Mathlib
import Toolpath.Proofs.Numeric.Encoding

/-! Rounding to doubles. `Near` says which quotients round to a code without the steps of the
rounding, and the codes are those below that of infinity as long as the quotient stays short of the
greatest finite double. -/
namespace Toolpath

/-- One is this power of two, in units. -/
def unitScale : Nat := 1074

theorem oneUnits_eq : oneUnits = 2 ^ unitScale := Nat.one_shiftLeft unitScale

theorem oneUnits_pos : 0 < oneUnits := by
  rw [oneUnits_eq]
  exact Nat.two_pow_pos unitScale

/-- The rounded quotient is the only natural within half a unit that is even at the ends. -/
theorem roundQuotient_eq {num den q : Nat} (positive : 0 < den)
    (lower : 2 * (q * den) ≤ 2 * num + den) (upper : 2 * num ≤ 2 * (q * den) + den)
    (tie : q % 2 = 1 → 2 * (q * den) < 2 * num + den ∧ 2 * num < 2 * (q * den) + den) :
    roundQuotient num den = q := by
  have division := Nat.div_add_mod num den
  have bound := Nat.mod_lt num positive
  have near : q = num / den ∨ q = num / den + 1 := by
    have below : q * den < (num / den + 2) * den := by
      rw [Nat.add_mul, Nat.mul_comm (num / den)]
      omega
    have above : num / den * den < (q + 1) * den := by
      rw [Nat.add_mul, Nat.mul_comm (num / den)]
      omega
    have := Nat.lt_of_mul_lt_mul_right below
    have := Nat.lt_of_mul_lt_mul_right above
    omega
  unfold roundQuotient
  rcases near with rfl | rfl
  · rw [Nat.mul_comm (num / den)] at lower upper tie
    rw [if_pos (by omega)]
  · rw [Nat.add_mul, Nat.mul_comm (num / den)] at lower upper tie
    rw [if_neg (by omega)]

theorem roundQuotient_le {num den q : Nat} (positive : 0 < den)
    (h : 2 * num < 2 * (q * den) + den) :
    roundQuotient num den ≤ q := by
  have lower := roundQuotient_lower num positive
  have upper := roundQuotient_upper num positive
  by_contra more
  have : (q + 1) * den ≤ roundQuotient num den * den := Nat.mul_le_mul_right den (by omega)
  rw [Nat.add_mul] at this
  omega

theorem le_roundQuotient {num den q : Nat} (positive : 0 < den) (h : q * den ≤ num) :
    q ≤ roundQuotient num den := by
  have floor : q ≤ num / den := (Nat.le_div_iff_mul_le positive).mpr h
  unfold roundQuotient
  split <;> omega

namespace Binary64

theorem unitsOfCode_eq (code : Nat) :
    unitsOfCode code = significandOfCode code * 2 ^ scaleOfCode code :=
  Nat.shiftLeft_eq _ _

theorem unitsOfCode_pos {code : Nat} : 0 < unitsOfCode code ↔ 0 < code := by
  have width := Nat.two_pow_pos (scaleOfCode code)
  rw [unitsOfCode_eq, ← @significandOfCode_pos code]
  exact ⟨fun h => Nat.pos_of_mul_pos_right h, fun h => Nat.mul_pos h width⟩

theorem scaleOfUnits_small {units : Nat} (h : units < 2 ^ 53) : scaleOfUnits units = 0 := by
  unfold scaleOfUnits
  by_cases zero : units = 0
  · simp [zero]
  · have := (Nat.log2_lt zero).mpr h
    omega

theorem scaleOfUnits_eq {units scale : Nat} (low : 2 ^ (52 + scale) ≤ units)
    (high : units < 2 ^ (53 + scale)) :
    scaleOfUnits units = scale := by
  have positive : units ≠ 0 := by
    have := Nat.two_pow_pos (52 + scale)
    omega
  have := (Nat.le_log2 positive).mpr low
  have := (Nat.log2_lt positive).mpr high
  unfold scaleOfUnits
  omega

theorem codeOfRatio_eq (num den : Nat) : codeOfRatio num den =
    min (roundQuotient num (den * 2 ^ scaleOfUnits (num / den)) + scaleOfUnits (num / den) * 2 ^ 52)
      infinityCode := by
  simp [codeOfRatio, codeOfScaled, Nat.shiftLeft_eq]

/-- The ratios that read as a code: those within half a unit of its last place, or a quarter below
where the neighbour is nearer, the ends included exactly if its significand is even. -/
structure Near (code num den : Nat) : Prop where
  lower : 2 * (significandOfCode code * (den * 2 ^ scaleOfCode code)) ≤
    2 * num + den * 2 ^ scaleOfCode code
  upper : 2 * num ≤ 2 * (significandOfCode code * (den * 2 ^ scaleOfCode code)) +
    den * 2 ^ scaleOfCode code
  narrow : significandOfCode code = 2 ^ 52 → 0 < scaleOfCode code →
    4 * (significandOfCode code * (den * 2 ^ scaleOfCode code)) ≤
    4 * num + den * 2 ^ scaleOfCode code
  tie : significandOfCode code % 2 = 1 →
    2 * (significandOfCode code * (den * 2 ^ scaleOfCode code)) <
    2 * num + den * 2 ^ scaleOfCode code ∧
      2 * num < 2 * (significandOfCode code * (den * 2 ^ scaleOfCode code)) +
      den * 2 ^ scaleOfCode code

theorem scaleOfUnits_ratio {num den scale : Nat} (positive : 0 < den)
    (low : 2 ^ 52 * (den * 2 ^ scale) ≤ num) (high : num < 2 ^ 53 * (den * 2 ^ scale)) :
    scaleOfUnits (num / den) = scale := by
  apply scaleOfUnits_eq
  · rw [Nat.le_div_iff_mul_le positive, Nat.pow_add, mul_right_comm, mul_assoc]
    exact low
  · rw [Nat.div_lt_iff_lt_mul positive, Nat.pow_add, mul_right_comm, mul_assoc]
    exact high

theorem significandOfCode_lt (code : Nat) : significandOfCode code < 2 ^ 53 := by
  have significand := significandOfCode_eq code
  have scale := scaleOfCode_eq code
  omega

theorem le_significandOfCode {code : Nat} (h : 0 < scaleOfCode code) :
    2 ^ 52 ≤ significandOfCode code := by
  have significand := significandOfCode_eq code
  have scale := scaleOfCode_eq code
  omega

theorem codeOfRatio_near {code num den : Nat} (finite : code < infinityCode) (positive : 0 < den)
    (near : Near code num den) : codeOfRatio num den = code := by
  obtain ⟨lower, upper, narrow, tie⟩ := near
  have whole := (code_eq code).symm
  have below := significandOfCode_lt code
  have above := @le_significandOfCode code
  have width : 0 < den * 2 ^ scaleOfCode code := Nat.mul_pos positive (Nat.two_pow_pos _)
  have rounded := roundQuotient_eq width lower upper tie
  generalize significandOfCode code = m at *
  generalize scaleOfCode code = s at *
  rw [codeOfRatio_eq]
  have ceiling : num < 2 ^ 53 * (den * 2 ^ s) := by
    have : m * (den * 2 ^ s) ≤ (2 ^ 53 - 1) * (den * 2 ^ s) := Nat.mul_le_mul_right _ (by omega)
    omega
  by_cases inside : s = 0 ∨ 2 ^ 52 * (den * 2 ^ s) ≤ num
  · have same : scaleOfUnits (num / den) = s := by
      rcases inside with flat | inside
      · subst flat
        apply scaleOfUnits_small
        rw [Nat.div_lt_iff_lt_mul positive]
        simpa using ceiling
      · exact scaleOfUnits_ratio positive inside ceiling
    rw [same, rounded, whole]
    exact Nat.min_eq_left finite.le
  · obtain ⟨steep, outside⟩ := not_or.mp inside
    have least : m = 2 ^ 52 := by
      by_contra other
      have : (2 ^ 52 + 1) * (den * 2 ^ s) ≤ m * (den * 2 ^ s) := Nat.mul_le_mul_right _ (by omega)
      omega
    have quarter := narrow least (by omega)
    subst least
    obtain ⟨t, rfl⟩ : ∃ t, s = t + 1 := ⟨s - 1, by omega⟩
    have half : den * 2 ^ (t + 1) = 2 * (den * 2 ^ t) := by
      rw [Nat.pow_succ]
      ring
    rw [half] at quarter outside ceiling width
    have inner : scaleOfUnits (num / den) = t := scaleOfUnits_ratio positive (by omega) (by omega)
    rw [inner, roundQuotient_eq (q := 2 ^ 53) (by omega) (by omega) (by omega) (by omega)]
    have carried : 2 ^ 53 + t * 2 ^ 52 = code := by omega
    rw [carried]
    exact Nat.min_eq_left finite.le

/-- The scale of the greatest finite doubles. -/
def greatestScale : Nat := 2045

theorem lt_scale (n : Nat) : n < 2 ^ (53 + scaleOfUnits n) := by
  by_cases zero : n = 0
  · subst zero
    exact Nat.two_pow_pos _
  · apply (Nat.log2_lt zero).mp
    unfold scaleOfUnits
    omega

theorem lt_scaleOfUnits {scale n : Nat} (h : 2 ^ (53 + scale) ≤ n) : scale < scaleOfUnits n := by
  have log := (Nat.le_log2 (Nat.lt_of_lt_of_le (Nat.two_pow_pos _) h).ne').mpr h
  unfold scaleOfUnits
  omega

theorem log2_eq_of_scale {n : Nat} (h : 0 < scaleOfUnits n) : n.log2 = 52 + scaleOfUnits n := by
  unfold scaleOfUnits at h ⊢
  omega

theorem num_lt_scale (num : Nat) {den : Nat} (positive : 0 < den) :
    num < 2 ^ 53 * (den * 2 ^ scaleOfUnits (num / den)) := by
  have below := lt_scale (num / den)
  rw [Nat.div_lt_iff_lt_mul positive, Nat.pow_add] at below
  rwa [mul_right_comm, mul_assoc] at below

theorem le_num_of_scale {num den : Nat} (positive : 0 < den)
    (steep : 0 < scaleOfUnits (num / den)) :
    2 ^ 52 * (den * 2 ^ scaleOfUnits (num / den)) ≤ num := by
  have nonzero : num / den ≠ 0 := by
    intro zero
    rw [zero] at steep
    cases steep
  have floor := Nat.log2_self_le nonzero
  rw [log2_eq_of_scale steep, Nat.pow_add, Nat.le_div_iff_mul_le positive] at floor
  rwa [mul_right_comm, mul_assoc] at floor

/-- Below the greatest finite double and half a unit of its last place nothing reads as infinite. -/
theorem codeOfRatio_lt {num den : Nat} (positive : 0 < den)
    (h : 2 * num < (2 ^ 54 - 1) * (den * 2 ^ greatestScale)) :
    codeOfRatio num den < infinityCode := by
  have limit := infinityCode_eq
  have greatest : greatestScale = 2045 := rfl
  have below := num_lt_scale num positive
  have scale : scaleOfUnits (num / den) ≤ greatestScale := by
    have small : num / den < 2 ^ (53 + greatestScale) := by
      rw [Nat.div_lt_iff_lt_mul positive, Nat.pow_add]
      rw [mul_right_comm, mul_assoc]
      omega
    by_cases zero : num / den = 0
    · simp [zero, scaleOfUnits]
    · have := (Nat.log2_lt zero).mpr small
      unfold scaleOfUnits
      omega
  rw [codeOfRatio_eq]
  generalize scaleOfUnits (num / den) = s at *
  have width : 0 < den * 2 ^ s := Nat.mul_pos positive (Nat.two_pow_pos _)
  rcases Nat.lt_or_eq_of_le scale with lower | rfl
  · have carried : roundQuotient num (den * 2 ^ s) ≤ 2 ^ 53 := roundQuotient_le width (by omega)
    omega
  · have kept : roundQuotient num (den * 2 ^ greatestScale) ≤ 2 ^ 53 - 1 :=
      roundQuotient_le width (by omega)
    omega

/-- From one power of two past the greatest finite double on everything reads as infinite. -/
theorem codeOfRatio_infinite {num den : Nat} (positive : 0 < den)
    (h : 2 ^ 53 * (den * 2 ^ greatestScale) ≤ num) :
    codeOfRatio num den = infinityCode := by
  have large : 2 ^ (53 + greatestScale) ≤ num / den := by
    rw [Nat.le_div_iff_mul_le positive, Nat.pow_add]
    rw [mul_right_comm, mul_assoc]
    exact h
  have scale := lt_scaleOfUnits large
  have above := le_num_of_scale positive (Nat.zero_lt_of_lt scale)
  have significand := le_roundQuotient (Nat.mul_pos positive (Nat.two_pow_pos _)) above
  rw [codeOfRatio_eq]
  generalize roundQuotient num (den * 2 ^ scaleOfUnits (num / den)) = q at *
  generalize scaleOfUnits (num / den) = s at *
  have limit := infinityCode_eq
  have greatest : greatestScale = 2045 := rfl
  clear large above h
  omega

/-- Below half a unit everything reads as zero. -/
theorem codeOfRatio_zero {num den : Nat} (h : 2 * num < den) : codeOfRatio num den = 0 := by
  have none : num / den = 0 := Nat.div_eq_of_lt (by omega)
  rw [codeOfRatio_eq, none, scaleOfUnits_small (by decide), Nat.pow_zero, Nat.mul_one,
    roundQuotient_eq (q := 0) (by omega) (by omega) (by omega) (by omega)]
  simp

theorem near_units (code : Nat) {den : Nat} (positive : 0 < den) :
    Near code (unitsOfCode code * den) den := by
  have whole : unitsOfCode code * den = significandOfCode code * (den * 2 ^ scaleOfCode code) := by
    rw [unitsOfCode, Nat.shiftLeft_eq]
    ring
  have width : 0 < den * 2 ^ scaleOfCode code := Nat.mul_pos positive (Nat.two_pow_pos _)
  constructor <;> rw [whole] <;> omega

/-- Writing out the units of a code and rounding them gives the code back. -/
theorem codeOfRatio_units {code : Nat} (finite : code < infinityCode) {den : Nat}
    (positive : 0 < den) :
    codeOfRatio (unitsOfCode code * den) den = code :=
  codeOfRatio_near finite positive (near_units code positive)

theorem nearest_units (negative : Bool) {code : Nat} (finite : code < infinityCode) :
    nearest negative (unitsOfCode code) 1 = ofCode negative code := by
  have same := codeOfRatio_units finite Nat.one_pos
  rw [Nat.mul_one] at same
  rw [nearest, same]

/-- Even the greatest finite double lies half a unit below the limit. -/
theorem unitsOfCode_le {code : Nat} (finite : code < infinityCode) :
    unitsOfCode code ≤ (2 ^ 53 - 1) * 2 ^ greatestScale := by
  have limit := infinityCode_eq
  have greatest : greatestScale = 2045 := rfl
  have scale := scaleOfCode_eq code
  have significand := significandOfCode_lt code
  rw [unitsOfCode, Nat.shiftLeft_eq]
  exact Nat.mul_le_mul (by omega) (Nat.pow_le_pow_right (by decide) (by omega))

end Binary64

end Toolpath
