import Mathlib
import Toolpath.Proofs.Numeric.Value

/-! How close doubles lie. Up to 2^49 every number has one within 1/32 of it, so a result of that size
is no further from the exact one; and up to 2^48 a sum leaves a double that something of more than 1/64
is added to. -/
namespace Toolpath.Binary64
variable {x : Float} {q : ℚ} {n k : ℤ} {width : ℕ}

theorem exists_power (fits : width ≤ 970) : ∃ z, isFinite z = true ∧ value z = 2 ^ width := by
  obtain ⟨z, finite, same⟩ := exists_double (by decide : |(1 : ℤ)| ≤ 2 ^ 53)
    (by omega : -1074 ≤ (width : ℤ)) (by omega)
  exact ⟨z, finite, by rw [same, Int.cast_one, one_mul, zpow_natCast]⟩

/-- What a power of two bounds is bounded by a double. -/
theorem exists_bound (fits : width ≤ 970) (bounded : |q| ≤ 2 ^ width) :
    ∃ z, isFinite z = true ∧ |q| ≤ |value z| := by
  obtain ⟨z, finite, power⟩ := exists_power fits
  refine ⟨z, finite, bounded.trans ?_⟩
  rw [power]
  exact le_abs_self _

/-- The next multiple of 1/32 is nearer to what is more than 1/64 ahead than the start is. -/
theorem exists_ahead {step : ℚ} (far : 1 / 64 < step) (low : -2 ^ 48 ≤ q) (high : q + step ≤ 2 ^ 48) :
    ∃ n : ℤ, |n| ≤ 2 ^ 53 ∧ |n * 2 ^ (-5 : ℤ) - (q + step)| < step := by
  have place : (2 : ℚ) ^ (-5 : ℤ) = 1 / 32 := by norm_num
  have floor := Int.floor_le (32 * q)
  have next := Int.lt_floor_add_one (32 * q)
  have least : (-2 ^ 53 : ℤ) ≤ ⌊32 * q⌋ := Int.le_floor.mpr (by push_cast; linarith)
  have greatest : ⌊32 * q⌋ < (2 ^ 53 : ℤ) := Int.floor_lt.mpr (by push_cast; linarith)
  refine ⟨⌊32 * q⌋ + 1, abs_le.mpr ⟨by omega, by omega⟩, ?_⟩
  rw [place, abs_lt]
  push_cast
  constructor <;> linarith

theorem log_bounds (positive : 0 < q) :
    (2 : ℚ) ^ Int.log 2 q ≤ q ∧ q < (2 : ℚ) ^ (Int.log 2 q + 1) := by
  constructor
  · exact_mod_cast Int.zpow_log_le_self one_lt_two positive
  · exact_mod_cast Int.lt_zpow_succ_log_self (R := ℚ) one_lt_two q

/-- What is left of a number behind its first 53 binary places is less than one part in 2^52. -/
theorem exists_truncation (positive : 0 < q) : ∃ m : ℤ, |m| ≤ 2 ^ 53 ∧
    m * (2 : ℚ) ^ (Int.log 2 q - 52) ≤ q ∧
      (1 - 1 / 2 ^ 52) * q ≤ m * (2 : ℚ) ^ (Int.log 2 q - 52) := by
  obtain ⟨lower, upper⟩ := log_bounds positive
  have place : (0 : ℚ) < 2 ^ (Int.log 2 q - 52) := zpow_pos two_pos _
  have scaled : (2 : ℚ) ^ Int.log 2 q = 2 ^ 52 * 2 ^ (Int.log 2 q - 52) := by
    rw [← zpow_natCast, ← zpow_add₀ two_ne_zero]
    congr 1
    push_cast
    ring
  rw [zpow_add_one₀ two_ne_zero, scaled] at upper
  rw [scaled] at lower
  have floor := Int.floor_le (q / 2 ^ (Int.log 2 q - 52))
  have next := Int.lt_floor_add_one (q / 2 ^ (Int.log 2 q - 52))
  rw [le_div_iff₀ place] at floor
  rw [div_lt_iff₀ place] at next
  refine ⟨⌊q / 2 ^ (Int.log 2 q - 52)⌋, ?_, floor, ?_⟩
  · have natural : 0 ≤ ⌊q / 2 ^ (Int.log 2 q - 52)⌋ :=
      Int.floor_nonneg.mpr (div_nonneg positive.le place.le)
    have bound : ⌊q / 2 ^ (Int.log 2 q - 52)⌋ < (2 ^ 53 : ℤ) := by
      refine Int.floor_lt.mpr ((div_lt_iff₀ place).mpr ?_)
      push_cast
      linarith
    rw [abs_of_nonneg natural]
    exact bound.le
  · linarith

namespace Rounds

section
variable (rounds : Rounds q x) (short : |n| ≤ 2 ^ 53) (low : -1074 ≤ k) (high : k ≤ 970)
include rounds short low high

/-- A rounding keeps to the bounds that are doubles. -/
theorem le_double (bound : q ≤ n * 2 ^ k) : value x ≤ n * 2 ^ k := by
  obtain ⟨z, finite, same⟩ := exists_double short low high
  rw [← same] at bound ⊢
  exact rounds.le finite bound

theorem double_le (bound : n * 2 ^ k ≤ q) : n * 2 ^ k ≤ value x := by
  obtain ⟨z, finite, same⟩ := exists_double short low high
  rw [← same] at bound ⊢
  exact rounds.ge finite bound

theorem near_double : |value x - q| ≤ |n * 2 ^ k - q| := by
  obtain ⟨z, finite, same⟩ := exists_double short low high
  rw [← same]
  exact rounds.closest z finite

/-- It keeps to a lower bound for the size as well. -/
theorem double_le_abs (bound : n * 2 ^ k ≤ |q|) : n * 2 ^ k ≤ |value x| := by
  rcases abs_cases q with ⟨size, _⟩ | ⟨size, _⟩
  · rw [size] at bound
    exact (rounds.double_le short low high bound).trans (le_abs_self _)
  · rw [size] at bound
    have opposite := rounds.le_double (n := -n) (by rwa [abs_neg]) low high (by push_cast; linarith)
    push_cast at opposite
    linarith [neg_abs_le (value x)]

end

theorem nonneg (rounds : Rounds q x) (bound : 0 ≤ q) : 0 ≤ value x := by
  obtain ⟨finite, zero⟩ := value_ofInt (by decide : |(0 : ℤ)| ≤ 2 ^ 53)
  rw [Int.cast_zero] at zero
  rw [← zero] at bound ⊢
  exact rounds.ge finite bound

theorem nonpos (rounds : Rounds q x) (bound : q ≤ 0) : value x ≤ 0 := by
  obtain ⟨finite, zero⟩ := value_ofInt (by decide : |(0 : ℤ)| ≤ 2 ^ 53)
  rw [Int.cast_zero] at zero
  rw [← zero] at bound ⊢
  exact rounds.le finite bound

theorem abs_le_power (rounds : Rounds q x) (fits : width ≤ 970) (bounded : |q| ≤ 2 ^ width) :
    |value x| ≤ 2 ^ width := by
  obtain ⟨least, greatest⟩ := abs_le.mp bounded
  obtain ⟨z, finite, power⟩ := exists_power fits
  have above := rounds.le finite (greatest.trans_eq power.symm)
  have below := rounds.double_le (by decide : |(-1 : ℤ)| ≤ 2 ^ 53)
    (by omega : -1074 ≤ (width : ℤ)) (by omega) (by push_cast; rw [zpow_natCast]; linarith)
  rw [zpow_natCast] at below
  push_cast at below
  exact abs_le.mpr ⟨by linarith, by linarith⟩

/-- The sixteenths are dense enough for numbers up to 2^49. -/
theorem within (rounds : Rounds q x) (bounded : |q| ≤ 2 ^ 49) : |value x - q| ≤ 1 / 32 := by
  have half := abs_sub_round (16 * q)
  obtain ⟨least, greatest⟩ := abs_le.mp bounded
  obtain ⟨below, above⟩ := abs_le.mp half
  have short : |round (16 * q)| ≤ 2 ^ 53 := by
    have low : (-2 ^ 53 - 1 : ℤ) < round (16 * q) := by
      have : ((-2 ^ 53 - 1 : ℤ) : ℚ) < round (16 * q) := by
        push_cast
        linarith
      exact_mod_cast this
    have high : round (16 * q) < (2 ^ 53 + 1 : ℤ) := by
      have : (round (16 * q) : ℚ) < ((2 ^ 53 + 1 : ℤ) : ℚ) := by
        push_cast
        linarith
      exact_mod_cast this
    exact abs_le.mpr ⟨by omega, by omega⟩
  refine (rounds.near_double short (by decide : (-1074 : ℤ) ≤ -4) (by decide)).trans ?_
  have sixteenth : (2 : ℚ) ^ (-4 : ℤ) = 1 / 16 := by norm_num
  rw [sixteenth]
  exact abs_le.mpr ⟨by linarith, by linarith⟩

/-- A sum of more than 1/64 leaves the double that it is added to. -/
theorem leaves {sum : Float} {step : ℚ} (rounds : Rounds (q + step) sum) (far : 1 / 64 < |step|)
    (start : |q| ≤ 2 ^ 48) (inside : |q + step| ≤ 2 ^ 48) : value sum ≠ q := by
  intro same
  obtain ⟨n, short, nearer⟩ : ∃ n : ℤ, |n| ≤ 2 ^ 53 ∧ |n * 2 ^ (-5 : ℤ) - (q + step)| < |step| := by
    rcases abs_cases step with ⟨size, _⟩ | ⟨size, _⟩
    · rw [size] at far ⊢
      exact exists_ahead far (abs_le.mp start).1 (abs_le.mp inside).2
    · rw [size] at far ⊢
      have mirrored : -q + -step = -(q + step) := by ring
      obtain ⟨n, short, nearer⟩ := exists_ahead far (neg_le_neg (abs_le.mp start).2)
        (mirrored.trans_le (neg_le.mp (abs_le.mp inside).1))
      refine ⟨-n, by rwa [abs_neg], ?_⟩
      rw [mirrored, ← abs_neg] at nearer
      push_cast
      convert nearer using 2
      ring
  have closest := rounds.near_double short (by decide : (-1074 : ℤ) ≤ -5) (by decide)
  rw [same, sub_add_cancel_left, abs_neg] at closest
  exact absurd nearer closest.not_gt

/-- A rounding loses less than one part in 2^52. -/
theorem relative (rounds : Rounds q x) (least : (2 : ℚ) ^ (-100 : ℤ) ≤ q) (most : q ≤ 1) :
    (1 - 1 / 2 ^ 52) * q ≤ value x := by
  have positive : 0 < q := (zpow_pos two_pos _).trans_le least
  obtain ⟨m, short, below, near⟩ := exists_truncation positive
  obtain ⟨lower, upper⟩ := log_bounds positive
  have low : -101 < Int.log 2 q := by
    have := (zpow_lt_zpow_iff_right₀ one_lt_two).mp (least.trans_lt upper)
    omega
  have high : Int.log 2 q < 1 := by
    refine (zpow_lt_zpow_iff_right₀ one_lt_two).mp ((lower.trans most).trans_lt ?_)
    norm_num
  have place : -1074 ≤ Int.log 2 q - 52 := by omega
  exact near.trans (rounds.double_le short place (by omega) below)

end Rounds

/-- The code of 2^48. -/
def powerCode : Nat := 1071 <<< 52

theorem unitsOfCode_powerCode : unitsOfCode powerCode = 2 ^ 48 * oneUnits ∧
    32 * unitsOfCode (powerCode - 1) + oneUnits = 2 ^ 53 * oneUnits := by
  decide

/-- No double lies between 2^48 and the multiple of 1/32 below it. -/
theorem abs_value_of_lt (finite : isFinite x = true) (below : |value x| < 2 ^ 48) :
    |value x| ≤ 2 ^ 48 - 1 / 32 := by
  have one := oneUnits_cast_pos
  obtain ⟨power, previous⟩ := unitsOfCode_powerCode
  obtain ⟨s, code, small, rfl⟩ := exists_ofCode finite
  rw [abs_value (ofFloat_ofCode s small)] at below ⊢
  rw [div_lt_iff₀ one] at below
  rw [div_le_iff₀ one, sub_mul]
  have less : unitsOfCode code < unitsOfCode powerCode := by
    rw [power]
    exact_mod_cast below
  have before : code ≤ powerCode - 1 := by
    by_contra further
    exact less.not_ge (unitsOfCode_mono (by omega))
  have units : 32 * unitsOfCode code + oneUnits ≤ 2 ^ 53 * oneUnits :=
    (Nat.add_le_add_right (Nat.mul_le_mul_left 32 (unitsOfCode_mono before)) _).trans_eq previous
  have units : (32 * unitsOfCode code + oneUnits : ℚ) ≤ 2 ^ 53 * oneUnits := by exact_mod_cast units
  linarith

end Toolpath.Binary64
