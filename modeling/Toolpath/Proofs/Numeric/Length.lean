import Mathlib
import Toolpath.Proofs.Numeric.Value

/-! Lengths of vectors of doubles. The root that they come from is the whole part of the exact one, which
bounds a length by the longer side: it is at most twice as long. -/
namespace Toolpath

/-! Newton's descent. -/

theorem rootDescent_sq_le (n : Nat) {fuel guess : Nat} (enough : guess ≤ fuel) :
    rootDescent n fuel guess * rootDescent n fuel guess ≤ n := by
  induction fuel generalizing guess with
  | zero =>
    obtain rfl := Nat.le_zero.mp enough
    exact Nat.zero_le n
  | succ fuel ih =>
    rw [rootDescent]
    split
    · exact ih (by omega)
    · rename_i settled
      rcases Nat.eq_zero_or_pos guess with rfl | positive
      · exact Nat.zero_le n
      · exact (Nat.le_div_iff_mul_le positive).mp (by omega)

/-- The mean of a guess above the root and of its quotient is not below the root either. -/
theorem sqrt_le_mean {n guess : Nat} (above : Nat.sqrt n ≤ guess) :
    Nat.sqrt n ≤ (guess + n / guess) / 2 := by
  obtain ⟨more, rfl⟩ := Nat.exists_eq_add_of_le above
  have square := Nat.sqrt_le n
  generalize Nat.sqrt n = root at *
  rcases Nat.eq_zero_or_pos (root + more) with zero | positive
  · rw [show root = 0 by omega]
    exact Nat.zero_le _
  · have share : root - more ≤ n / (root + more) := by
      refine (Nat.le_div_iff_mul_le positive).mpr (Nat.le_trans ?_ square)
      rw [Nat.mul_comm, ← Nat.mul_self_sub_mul_self_eq]
      exact Nat.sub_le _ _
    omega

theorem sqrt_le_rootDescent (n fuel : Nat) {guess : Nat} (above : Nat.sqrt n ≤ guess) :
    Nat.sqrt n ≤ rootDescent n fuel guess := by
  induction fuel generalizing guess with
  | zero => exact above
  | succ fuel ih =>
    rw [rootDescent]
    split
    · exact ih (sqrt_le_mean above)
    · exact above

theorem squareRoot_eq (n : Nat) : squareRoot n = Nat.sqrt n := by
  induction n using squareRoot.induct with
  | case1 n small =>
    rw [squareRoot, dif_pos small]
    refine Nat.eq_sqrt.mpr ?_
    interval_cases n <;> decide
  | case2 n large dropped ih =>
    rw [squareRoot, dif_neg large]
    dsimp only
    rw [ih]
    apply le_antisymm
    · exact Nat.le_sqrt.mpr (rootDescent_sq_le n le_rfl)
    · apply sqrt_le_rootDescent
      apply Nat.le_of_lt
      -- the front digits lie below the next square, so all digits do
      have front := Nat.lt_succ_sqrt (n >>> (2 * dropped))
      rw [Nat.shiftRight_eq_div_pow, Nat.div_lt_iff_lt_mul (Nat.two_pow_pos _)] at front
      rw [Nat.sqrt_lt, Nat.shiftLeft_eq, mul_mul_mul_comm, ← Nat.pow_add, ← Nat.two_mul,
        Nat.shiftRight_eq_div_pow]
      exact front

namespace Binary64

/-- The least scale of the sides that are not zero. -/
def commonScale (a b : Nat) : Nat :=
  if a = 0 then scaleOfCode b else if b = 0 then scaleOfCode a else min (scaleOfCode a) (scaleOfCode b)

/-- A side in units of a common scale. -/
def sideAt (scale code : Nat) : Nat := significandOfCode code <<< (scaleOfCode code - scale)

theorem sideAt_units {scale code : Nat} (fits : code = 0 ∨ scale ≤ scaleOfCode code) :
    sideAt scale code * 2 ^ scale = unitsOfCode code := by
  rw [sideAt, unitsOfCode_eq, Nat.shiftLeft_eq]
  rcases fits with rfl | fits
  · rw [show significandOfCode 0 = 0 from rfl, Nat.zero_mul, Nat.zero_mul, Nat.zero_mul]
  · rw [Nat.mul_assoc, ← Nat.pow_add, Nat.sub_add_cancel fits]

/-- The common scale is that of one of the sides, and no side needs a smaller one. -/
theorem commonScale_cases (a b : Nat) :
    (commonScale a b = scaleOfCode a ∨ commonScale a b = scaleOfCode b) ∧
      (a = 0 ∨ commonScale a b ≤ scaleOfCode a) ∧ (b = 0 ∨ commonScale a b ≤ scaleOfCode b) := by
  unfold commonScale
  split
  · exact ⟨.inr rfl, .inl ‹_›, .inr le_rfl⟩
  · split
    · exact ⟨.inl rfl, .inr le_rfl, .inl ‹_›⟩
    · omega

theorem le_sideAt {scale code : Nat} (same : scale = scaleOfCode code) (steep : scale ≠ 0) :
    2 ^ 52 ≤ sideAt scale code := by
  rw [sideAt, same, Nat.sub_self, Nat.shiftLeft_zero]
  exact le_significandOfCode (by omega)

/-- Four times the length of a vector of naturals, as far as its rounding goes: twice the whole part of
the root of the fourfold squares, and one more if that leaves a rest. -/
def scaledRoot (x y : Nat) : Nat :=
  let squares := (x * x + y * y) <<< 2
  2 * squareRoot squares + if squareRoot squares * squareRoot squares = squares then 0 else 1

theorem scaledRoot_le (x y : Nat) : scaledRoot x y ≤ 6 * max x y := by
  unfold scaledRoot
  simp only [squareRoot_eq, Nat.shiftLeft_eq]
  have left := Nat.mul_self_le_mul_self (le_max_left x y)
  have right := Nat.mul_self_le_mul_self (le_max_right x y)
  rcases Nat.eq_zero_or_pos (max x y) with zero | positive
  · obtain ⟨rfl, rfl⟩ : x = 0 ∧ y = 0 := by omega
    decide
  · have short : Nat.sqrt ((x * x + y * y) * 2 ^ 2) < 3 * max x y := by
      have square := Nat.mul_self_lt_mul_self positive
      rw [Nat.sqrt_lt, Nat.mul_mul_mul_comm]
      omega
    split <;> omega

theorem le_scaledRoot {x y : Nat} (long : 2 ^ 52 ≤ max x y) : 2 ^ 52 * 4 ≤ scaledRoot x y := by
  unfold scaledRoot
  simp only [squareRoot_eq, Nat.shiftLeft_eq]
  have enough : 2 ^ 53 ≤ Nat.sqrt ((x * x + y * y) * 2 ^ 2) := by
    have square := Nat.mul_self_le_mul_self long
    have either : max x y * max x y ≤ x * x + y * y := by
      rcases max_choice x y with same | same
      · rw [same]
        omega
      · rw [same]
        omega
    exact Nat.le_sqrt.mpr (by omega)
  omega

/-- The number that a length is rounded from is at most half as long again as the longer side. -/
theorem lengthOfCodes_eq (a b : Nat) : ∃ n, lengthOfCodes a b = nearest false n 4 ∧
    n ≤ 6 * max (unitsOfCode a) (unitsOfCode b) := by
  obtain ⟨among, fitsA, fitsB⟩ := commonScale_cases a b
  have unitsA := sideAt_units fitsA
  have unitsB := sideAt_units fitsB
  have unfolded : lengthOfCodes a b = ofCode false (codeOfScaled (commonScale a b)
      (scaledRoot (sideAt (commonScale a b) a) (sideAt (commonScale a b) b)) 4) := rfl
  have long : commonScale a b ≠ 0 →
      2 ^ 52 * 4 ≤ scaledRoot (sideAt (commonScale a b) a) (sideAt (commonScale a b) b) := by
    intro steep
    apply le_scaledRoot
    rcases among with same | same
    · exact (le_sideAt same steep).trans (le_max_left _ _)
    · exact (le_sideAt same steep).trans (le_max_right _ _)
  refine ⟨_, unfolded.trans (congrArg _ (codeOfScaled_eq (by decide) long)), ?_⟩
  rw [← unitsA, ← unitsB, Nat.mul_max_mul_right, ← Nat.mul_assoc]
  exact Nat.mul_le_mul_right _ (scaledRoot_le _ _)

variable {x y z : Float}

theorem hypot_eq (finiteX : isFinite x = true) (finiteY : isFinite y = true) :
    hypot x y = lengthOfCodes (codeOfFloat x) (codeOfFloat y) := by
  obtain ⟨s, a, belowA, rfl⟩ := exists_ofCode finiteX
  obtain ⟨t, b, belowB, rfl⟩ := exists_ofCode finiteY
  rw [hypot, codeOfFloat_ofCode s belowA.le, codeOfFloat_ofCode t belowB.le, if_neg (by omega),
    if_neg (by omega)]

theorem exists_abs (finite : isFinite x = true) : ∃ z, isFinite z = true ∧ value z = |value x| := by
  obtain ⟨s, code, below, rfl⟩ := exists_ofCode finite
  refine ⟨ofCode false code, isFinite_ofCode _ below, ?_⟩
  rw [value_ofCode false below, abs_value (ofFloat_ofCode s below), signedUnits,
    if_neg Bool.false_ne_true, Int.cast_natCast]

section
variable (finiteX : isFinite x = true) (finiteY : isFinite y = true) (finiteZ : isFinite z = true)
  (bounded : 3 / 2 * max |value x| |value y| ≤ value z)
include finiteX finiteY finiteZ bounded

/-- A length that some double bounds is the rounding of a number that is at most half as long again as
the longer side. -/
theorem hypot_rounds : ∃ q, Rounds q (hypot x y) ∧ q ≤ 3 / 2 * max |value x| |value y| := by
  have one := oneUnits_cast_pos
  have wide : (0 : ℚ) < 4 * oneUnits := mul_pos (by norm_num) one
  rw [hypot_eq finiteX finiteY]
  obtain ⟨s, a, belowA, rfl⟩ := exists_ofCode finiteX
  obtain ⟨t, b, belowB, rfl⟩ := exists_ofCode finiteY
  obtain ⟨r, w, decoded⟩ := isFinite_iff.mp finiteZ
  rw [codeOfFloat_ofCode s belowA.le, codeOfFloat_ofCode t belowB.le]
  obtain ⟨n, length, most⟩ := lengthOfCodes_eq a b
  have exact : (n / (4 * oneUnits) : ℚ) ≤
      3 / 2 * max |value (ofCode s a)| |value (ofCode t b)| := by
    have most : (n : ℚ) ≤ 6 * max (unitsOfCode a : ℚ) (unitsOfCode b) := by exact_mod_cast most
    rw [abs_value (ofFloat_ofCode s belowA), abs_value (ofFloat_ofCode t belowB),
      max_div_div_right one.le, div_le_iff₀ wide, mul_assoc, mul_left_comm _ (4 : ℚ),
      div_mul_cancel₀ _ one.ne']
    linarith
  have room : n ≤ w * 4 := by
    have reach := exact.trans (bounded.trans (le_abs_self _))
    rw [abs_value decoded, div_le_div_iff₀ wide one, mul_comm (4 : ℚ), ← mul_assoc,
      mul_right_comm] at reach
    exact_mod_cast le_of_mul_le_mul_right reach one
  have rounds := nearest_rounds false (by decide : 0 < 4) (codeOfRatio_bounded decoded (by decide) room)
  rw [← length, signedUnits, if_neg Bool.false_ne_true, Int.cast_natCast, Nat.cast_ofNat] at rounds
  exact ⟨_, rounds, exact⟩

/-- The longer side is a double itself, so the rounding of a length is no further from it than the exact
one. -/
theorem hypot_le :
    isFinite (hypot x y) = true ∧ value (hypot x y) ≤ 2 * max |value x| |value y| := by
  obtain ⟨q, rounds, most⟩ := hypot_rounds finiteX finiteY finiteZ bounded
  obtain ⟨side, finite, same⟩ :
      ∃ side, isFinite side = true ∧ value side = max |value x| |value y| := by
    rcases max_choice |value x| |value y| with longer | longer
    · rw [longer]
      exact exists_abs finiteX
    · rw [longer]
      exact exists_abs finiteY
  have positive : 0 ≤ max |value x| |value y| := le_max_of_le_left (abs_nonneg _)
  have close := rounds.closest side finite
  rw [same] at close
  refine ⟨rounds.finite, ?_⟩
  rcases le_total q (max |value x| |value y|) with short | long
  · have within := rounds.le finite (short.trans_eq same.symm)
    linarith
  · rw [abs_of_nonpos (sub_nonpos.mpr long)] at close
    linarith [le_abs_self (value (hypot x y) - q)]

end

end Binary64

end Toolpath
