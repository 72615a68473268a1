import Mathlib
import Toolpath.Geometry.Planar

/-! Exact arithmetic: the real numbers as scalars, with the Euclidean length. What is said of
distances here holds of no rounded ones. -/
namespace Toolpath.Exact

noncomputable scoped instance : Scalar ℝ where
  ofInt n := n
  ratio num den := .ok (num / den)
  lt a b := decide (a < b)
  le a b := decide (a ≤ b)
  same a b := decide (a = b)

noncomputable scoped instance : Metric ℝ := ⟨fun x y => √(x ^ 2 + y ^ 2)⟩

@[simp] theorem zero_eq : (Scalar.zero : ℝ) = 0 := Int.cast_zero

@[simp] theorem ofInt_eq (n : Int) : (Scalar.ofInt n : ℝ) = n := rfl

@[simp] theorem lt_eq (a b : ℝ) : Scalar.lt a b = decide (a < b) := rfl

@[simp] theorem le_eq (a b : ℝ) : Scalar.le a b = decide (a ≤ b) := rfl

@[simp] theorem same_eq (a b : ℝ) : Scalar.same a b = decide (a = b) := rfl

theorem min_eq (a b : ℝ) : Scalar.min a b = min a b := by
  rw [Scalar.min, min_comm, min_def_lt]
  simp only [lt_eq, decide_eq_true_eq]

theorem quotient_eq {a b : ℝ} (nonzero : b ≠ 0) : Scalar.quotient a b = .ok (a / b) := by
  rw [Scalar.quotient, if_neg]
  change ¬ decide (b = Scalar.zero) = true
  simpa using nonzero

theorem distance_eq (x1 y1 x2 y2 : ℝ) :
    Planar.distance x1 y1 x2 y2 = √((x2 - x1) ^ 2 + (y2 - y1) ^ 2) := rfl

theorem distance_nonneg (x1 y1 x2 y2 : ℝ) : 0 ≤ Planar.distance x1 y1 x2 y2 :=
  Real.sqrt_nonneg _

/-- A fraction of the way leaves the rest of it. -/
theorem distance_lerp (x1 y1 x2 y2 ratio : ℝ) :
    Planar.distance (Planar.lerp x1 y1 x2 y2 ratio).1 (Planar.lerp x1 y1 x2 y2 ratio).2 x2 y2 =
      |1 - ratio| * Planar.distance x1 y1 x2 y2 := by
  have scaled : (x2 - (x1 + (x2 - x1) * ratio)) ^ 2 + (y2 - (y1 + (y2 - y1) * ratio)) ^ 2 =
      (1 - ratio) ^ 2 * ((x2 - x1) ^ 2 + (y2 - y1) ^ 2) := by ring
  rw [distance_eq, distance_eq, Planar.lerp, scaled, Real.sqrt_mul (sq_nonneg _),
    Real.sqrt_sq_eq_abs]

theorem lerp_mem_segment (x1 y1 x2 y2 : ℝ) {ratio : ℝ} (nonnegative : 0 ≤ ratio)
    (within : ratio ≤ 1) : Planar.lerp x1 y1 x2 y2 ratio ∈ segment ℝ (x1, y1) (x2, y2) := by
  refine ⟨1 - ratio, ratio, by linarith, nonnegative, by ring, ?_⟩
  simp only [Planar.lerp, Prod.smul_mk, Prod.mk_add_mk, smul_eq_mul, Prod.mk.injEq]
  constructor <;> ring

end Toolpath.Exact
