import Mathlib
import Toolpath.Proofs.Numeric.Bounds

/-! What rounding picks. A rounded quotient is the integer nearest to the exact one, and of two
equally near the even one; the double that a quotient rounds to is as near to it as any other. The
distances are those of rational numbers. -/
namespace Toolpath

/-- The integer nearest to a number; of two equally near the even one. -/
structure NearestEven (q : ℚ) (n : ℤ) : Prop where
  closest : ∀ m : ℤ, |n - q| ≤ |m - q|
  even : ∀ m : ℤ, m ≠ n → |m - q| = |n - q| → Even n

namespace NearestEven
variable {q r : ℚ} {m n : ℤ}

/-- Within half a unit, and even if that far away. -/
theorem iff_half : NearestEven q n ↔ |n - q| ≤ 1 / 2 ∧ (|n - q| = 1 / 2 → Even n) := by
  constructor
  · intro nearest
    have below := sq_le_sq.mpr (nearest.closest (n - 1))
    have above := sq_le_sq.mpr (nearest.closest (n + 1))
    push_cast at below above
    refine ⟨abs_le.mpr ⟨by linarith, by linarith⟩, fun half => ?_⟩
    rcases (abs_eq (by norm_num)).mp half with above | under
    · refine nearest.even (n - 1) (by omega) ?_
      have opposite : ((n - 1 : ℤ) : ℚ) - q = -(n - q) := by
        push_cast
        linarith
      rw [opposite, abs_neg]
    · refine nearest.even (n + 1) (by omega) ?_
      have opposite : ((n + 1 : ℤ) : ℚ) - q = -(n - q) := by
        push_cast
        linarith
      rw [opposite, abs_neg]
  · rintro ⟨half, tie⟩
    -- any other integer is a whole unit away from this one
    have apart (m : ℤ) (other : m ≠ n) : 1 ≤ |m - q| + |n - q| := by
      have unit : (1 : ℚ) ≤ |(m : ℚ) - n| := by
        exact_mod_cast Int.one_le_abs (sub_ne_zero.mpr other)
      have triangle := abs_sub_le (m : ℚ) q n
      rw [abs_sub_comm q] at triangle
      exact unit.trans triangle
    constructor
    · intro m
      by_cases same : m = n
      · rw [same]
      · linarith [apart m same]
    · intro m other same
      exact tie (by linarith [apart m other])

/-- Numbers in order round to integers in order. -/
theorem mono (le : q ≤ r) (first : NearestEven q m) (second : NearestEven r n) : m ≤ n := by
  obtain ⟨halfM, tieM⟩ := iff_half.mp first
  obtain ⟨halfN, tieN⟩ := iff_half.mp second
  have low := (abs_le.mp halfM).2
  have high := (abs_le.mp halfN).1
  by_contra more
  have next : m = n + 1 := by
    have close : (m : ℚ) ≤ (n + 1 : ℤ) := by
      push_cast
      linarith
    have := Int.cast_le.mp close
    omega
  subst next
  push_cast at low
  -- both are half a unit away from the same number, which cannot be with both of them even
  have evenM : Even (n + 1) := by
    apply tieM
    push_cast
    rw [abs_eq (by norm_num)]
    left
    linarith
  have evenN : Even n := by
    apply tieN
    rw [abs_eq (by norm_num)]
    right
    linarith
  exact Int.not_even_iff_odd.mpr evenN.add_one evenM

theorem unique (first : NearestEven q m) (second : NearestEven q n) : m = n :=
  le_antisymm (first.mono le_rfl second) (second.mono le_rfl first)

theorem neg (nearest : NearestEven q n) : NearestEven (-q) (-n) := by
  obtain ⟨half, tie⟩ := iff_half.mp nearest
  have mirrored : |((-n : ℤ) : ℚ) - -q| = |n - q| := by
    rw [← abs_neg]
    push_cast
    ring_nf
  refine iff_half.mpr ⟨mirrored.trans_le half, fun same => ?_⟩
  exact (tie (mirrored ▸ same)).neg

/-- What is no further from the integer rounds to it as well. -/
theorem closer (nearest : NearestEven q n) (le : |n - r| ≤ |n - q|) : NearestEven r n := by
  obtain ⟨half, tie⟩ := iff_half.mp nearest
  refine iff_half.mpr ⟨le.trans half, fun same => tie ?_⟩
  exact le_antisymm half (same ▸ le)

end NearestEven

theorem roundQuotient_odd {num den : Nat} (odd : roundQuotient num den % 2 = 1) (positive : 0 < den) :
    2 * (roundQuotient num den * den) < 2 * num + den ∧
      2 * num < 2 * (roundQuotient num den * den) + den := by
  have split := Nat.div_add_mod num den
  have bound := Nat.mod_lt num positive
  have commuted : num / den * den = den * (num / den) := Nat.mul_comm _ _
  have successor : (num / den + 1) * den = den * (num / den) + den := by
    rw [Nat.add_mul, Nat.one_mul, commuted]
  unfold roundQuotient at odd ⊢
  split at odd
  · rename_i near
    rw [if_pos near]
    omega
  · rename_i far
    rw [if_neg far]
    omega

theorem roundQuotient_nearestEven (num : Nat) {den : Nat} (positive : 0 < den) :
    NearestEven (num / den) (roundQuotient num den) := by
  have width : (0 : ℚ) < den := Nat.cast_pos.mpr positive
  have lower : (2 * num : ℚ) ≤ 2 * (roundQuotient num den * den) + den := by
    exact_mod_cast roundQuotient_lower num positive
  have upper : (2 * (roundQuotient num den * den) : ℚ) ≤ 2 * num + den := by
    exact_mod_cast roundQuotient_upper num positive
  have offset : ((roundQuotient num den : ℤ) : ℚ) - num / den =
      (roundQuotient num den * den - num) / den := by
    rw [sub_div, mul_div_cancel_right₀ _ width.ne']
    push_cast
    rfl
  rw [NearestEven.iff_half, offset, abs_div, abs_of_pos width, div_le_iff₀ width,
    div_eq_iff width.ne']
  refine ⟨abs_le.mpr ⟨by linarith, by linarith⟩, fun half => ?_⟩
  rw [Int.even_coe_nat, Nat.even_iff]
  by_contra odd
  obtain ⟨above, below⟩ := @roundQuotient_odd num den (by omega) positive
  have above : (2 * (roundQuotient num den * den) : ℚ) < 2 * num + den := by exact_mod_cast above
  have below : (2 * num : ℚ) < 2 * (roundQuotient num den * den) + den := by exact_mod_cast below
  rcases (abs_eq (by linarith)).mp half with larger | smaller
  · linarith
  · linarith

namespace Binary64
variable {num den q scale : Nat}

/-- A code spells its significand and scale out, the one that rounding carried too. -/
theorem unitsOfCode_carried (long : scale ≠ 0 → 2 ^ 52 ≤ q) (carried : q ≤ 2 ^ 53) :
    unitsOfCode (q + scale * 2 ^ 52) = q * 2 ^ scale := by
  rw [unitsOfCode_eq]
  rcases Nat.lt_or_eq_of_le carried with short | rfl
  · obtain ⟨significand, exponent⟩ := code_fields long short
    rw [significand, exponent]
  · have same : 2 ^ 53 + scale * 2 ^ 52 = 2 ^ 52 + (scale + 1) * 2 ^ 52 := by omega
    obtain ⟨significand, exponent⟩ := @code_fields (2 ^ 52) (scale + 1) (by omega) (by omega)
    rw [same, significand, exponent, Nat.pow_succ]
    ring

/-- The significand that a quotient rounds to at its scale. -/
def roundedSignificand (num den : Nat) : Nat :=
  roundQuotient num (den * 2 ^ scaleOfUnits (num / den))

theorem roundedSignificand_fits (num : Nat) (positive : 0 < den) :
    (scaleOfUnits (num / den) ≠ 0 → 2 ^ 52 ≤ roundedSignificand num den) ∧
      roundedSignificand num den ≤ 2 ^ 53 := by
  have width : 0 < den * 2 ^ scaleOfUnits (num / den) := Nat.mul_pos positive (Nat.two_pow_pos _)
  constructor
  · intro steep
    exact le_roundQuotient width (le_num_of_scale positive (Nat.pos_of_ne_zero steep))
  · have below := num_lt_scale num positive
    exact roundQuotient_le width (by omega)

/-- What a quotient rounds to, short of infinity. -/
theorem unitsOfCode_codeOfRatio (positive : 0 < den) (finite : codeOfRatio num den < infinityCode) :
    unitsOfCode (codeOfRatio num den) =
      roundedSignificand num den * 2 ^ scaleOfUnits (num / den) := by
  obtain ⟨long, carried⟩ := roundedSignificand_fits num positive
  have code : codeOfRatio num den =
      roundedSignificand num den + scaleOfUnits (num / den) * 2 ^ 52 := by
    rw [codeOfRatio_eq] at finite ⊢
    exact Nat.min_eq_left (by unfold roundedSignificand at *; omega)
  rw [code, unitsOfCode_carried long carried]

/-- No double is nearer to a quotient than the one that it rounds to. -/
theorem codeOfRatio_closest (positive : 0 < den) (finite : codeOfRatio num den < infinityCode)
    (code : Nat) :
    |(unitsOfCode (codeOfRatio num den) : ℚ) - num / den| ≤ |(unitsOfCode code : ℚ) - num / den| := by
  rw [unitsOfCode_codeOfRatio positive finite]
  have width : 0 < den * 2 ^ scaleOfUnits (num / den) := Nat.mul_pos positive (Nat.two_pow_pos _)
  have nearest := (roundQuotient_nearestEven num width).closest
  have steep := fun steep : 0 < scaleOfUnits (num / den) => le_num_of_scale positive steep
  change ∀ m : ℤ, |((roundedSignificand num den : ℤ) : ℚ) - _| ≤ _ at nearest
  generalize roundedSignificand num den = rounded at *
  generalize scaleOfUnits (num / den) = scale at *
  have place : (0 : ℚ) < 2 ^ scale := by positivity
  have denominator : (0 : ℚ) < den := Nat.cast_pos.mpr positive
  -- a multiple of the last place is as far away as its factor is from the scaled quotient
  have distance (k : ℤ) : |(k : ℚ) * 2 ^ scale - num / den| =
      |(k : ℚ) - num / (den * 2 ^ scale : Nat)| * 2 ^ scale := by
    rw [← abs_of_pos place, ← abs_mul, abs_of_pos place]
    congr 1
    push_cast
    field_simp
  have multiple (k : ℤ) :
      |((rounded * 2 ^ scale : Nat) : ℚ) - num / den| ≤ |(k : ℚ) * 2 ^ scale - num / den| := by
    have scaled := distance rounded
    push_cast at scaled nearest ⊢
    rw [scaled, distance k]
    push_cast
    exact mul_le_mul_of_nonneg_right (nearest k) place.le
  rw [unitsOfCode_eq code]
  rcases Nat.lt_or_ge (scaleOfCode code) scale with finer | coarser
  · -- what is spelt in finer places lies below the least number of this scale
    have least : significandOfCode code * 2 ^ scaleOfCode code ≤ 2 ^ 52 * 2 ^ scale := by
      calc significandOfCode code * 2 ^ scaleOfCode code
          ≤ 2 ^ 53 * 2 ^ scaleOfCode code :=
            Nat.mul_le_mul_right _ (significandOfCode_lt code).le
        _ = 2 ^ 52 * 2 ^ (scaleOfCode code + 1) := by rw [Nat.pow_succ]; ring
        _ ≤ 2 ^ 52 * 2 ^ scale := Nat.mul_le_mul_left _ (Nat.pow_le_pow_right (by decide) finer)
    have least : ((significandOfCode code * 2 ^ scaleOfCode code : Nat) : ℚ) ≤ 2 ^ 52 * 2 ^ scale := by
      exact_mod_cast least
    have floor : ((2 ^ 52 : ℤ) : ℚ) * 2 ^ scale ≤ num / den := by
      have below : (2 ^ 52 * (den * 2 ^ scale) : ℚ) ≤ num := by
        exact_mod_cast steep (Nat.zero_lt_of_lt finer)
      rw [le_div_iff₀ denominator]
      push_cast
      linarith
    refine (multiple (2 ^ 52)).trans ?_
    rw [abs_of_nonpos (by linarith)]
    rw [abs_of_nonpos (by push_cast at floor least ⊢; linarith)]
    push_cast at floor least ⊢
    linarith
  · have shifted : significandOfCode code * 2 ^ scaleOfCode code =
        significandOfCode code * 2 ^ (scaleOfCode code - scale) * 2 ^ scale := by
      rw [Nat.mul_assoc, ← Nat.pow_add, Nat.sub_add_cancel coarser]
    have other := multiple (significandOfCode code * 2 ^ (scaleOfCode code - scale) : Nat)
    rw [shifted]
    push_cast at other ⊢
    exact other

/-- A number with a short significand is a double itself, whatever its scale. -/
theorem unitsOfCode_codeOfRatio_short (short : q ≤ 2 ^ 53)
    (finite : codeOfRatio (q * 2 ^ scale) 1 < infinityCode) :
    unitsOfCode (codeOfRatio (q * 2 ^ scale) 1) = q * 2 ^ scale := by
  have exact (n k : Nat) (same : q * 2 ^ scale = n * 2 ^ k) (below : n < 2 ^ 53) :
      unitsOfCode (codeOfRatio (q * 2 ^ scale) 1) = q * 2 ^ scale := by
    rw [same] at finite ⊢
    rw [unitsOfCode_codeOfRatio Nat.one_pos finite, roundedSignificand, Nat.div_one, Nat.one_mul]
    have fits : scaleOfUnits (n * 2 ^ k) ≤ k := by
      by_contra more
      have least := @le_num_of_scale (n * 2 ^ k) 1 Nat.one_pos (by rw [Nat.div_one]; omega)
      rw [Nat.div_one, Nat.one_mul] at least
      have wide : 2 ^ (k + 1) ≤ 2 ^ scaleOfUnits (n * 2 ^ k) :=
        Nat.pow_le_pow_right (by decide) (by omega)
      have short : n * 2 ^ k < 2 ^ 53 * 2 ^ k := Nat.mul_lt_mul_of_pos_right below (Nat.two_pow_pos k)
      rw [Nat.pow_succ] at wide
      omega
    have whole : n * 2 ^ k = n * 2 ^ (k - scaleOfUnits (n * 2 ^ k)) * 2 ^ scaleOfUnits (n * 2 ^ k) := by
      rw [Nat.mul_assoc, ← Nat.pow_add, Nat.sub_add_cancel fits]
    generalize scaleOfUnits (n * 2 ^ k) = s at *
    rw [whole, roundQuotient_mul _ (Nat.two_pow_pos s)]
  rcases Nat.lt_or_eq_of_le short with below | rfl
  · exact exact q scale rfl below
  · exact exact (2 ^ 52) (scale + 1) (by rw [Nat.pow_succ]; ring) (by decide)

/-- Scaling before the rounding and after it are the same, if the quotient is long enough. -/
theorem codeOfScaled_eq (positive : 0 < den)
    (long : scale ≠ 0 → 2 ^ 52 * den ≤ num) :
    codeOfScaled scale num den = codeOfRatio (num * 2 ^ scale) den := by
  have width := Nat.two_pow_pos scale
  have whole : den * 2 ^ (scale + scaleOfUnits (num / den)) =
      den * 2 ^ scaleOfUnits (num / den) * 2 ^ scale := by
    rw [Nat.pow_add]
    ring
  have scales : scaleOfUnits (num * 2 ^ scale / den) = scale + scaleOfUnits (num / den) := by
    rcases Nat.eq_zero_or_pos scale with rfl | steep
    · simp
    · have high := num_lt_scale num positive
      have low : 2 ^ 52 * (den * 2 ^ scaleOfUnits (num / den)) ≤ num := by
        rcases Nat.eq_zero_or_pos (scaleOfUnits (num / den)) with flat | further
        · rw [flat, Nat.pow_zero, Nat.mul_one]
          exact long steep.ne'
        · exact le_num_of_scale positive further
      apply scaleOfUnits_ratio positive
      · rw [whole, ← Nat.mul_assoc]
        exact Nat.mul_le_mul_right _ low
      · rw [whole, ← Nat.mul_assoc]
        exact Nat.mul_lt_mul_of_pos_right high width
  rw [codeOfRatio_eq, scales, whole, roundQuotient_scale _ _ width, codeOfScaled]
  simp only [Nat.shiftLeft_eq]

end Binary64

end Toolpath
