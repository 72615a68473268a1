import Mathlib
import Toolpath.Proofs.Numeric.Arithmetic

/-! Bounds of what is rounded. Rounding keeps the order, so a result is no larger than a double that
bounds the exact one; in particular it is finite, where that double is. -/
namespace Toolpath

theorem roundQuotient_mono {m n : Nat} (den : Nat) (le : m ≤ n) :
    roundQuotient m den ≤ roundQuotient n den := by
  have floors : m / den ≤ n / den := Nat.div_le_div_right le
  have splitM := Nat.div_add_mod m den
  have splitN := Nat.div_add_mod n den
  unfold roundQuotient
  rcases Nat.lt_or_eq_of_le floors with less | same
  · split <;> split <;> omega
  · -- with the same whole part the larger of the two leaves the larger rest
    rw [same] at splitM ⊢
    split <;> split <;> omega

namespace Binary64
variable {x : Float} {s : Bool} {v num den : Nat}

theorem scaleOfUnits_mono {m n : Nat} (le : m ≤ n) : scaleOfUnits m ≤ scaleOfUnits n := by
  have logs : m.log2 ≤ n.log2 := by
    by_cases zero : m = 0
    · simp [zero]
    · exact (Nat.le_log2 (by omega)).mpr ((Nat.log2_self_le zero).trans le)
  unfold scaleOfUnits
  omega

/-- Rounding to a double keeps the order of quotients. -/
theorem codeOfRatio_mono {m n : Nat} (positive : 0 < den) (le : m ≤ n) :
    codeOfRatio m den ≤ codeOfRatio n den := by
  rw [codeOfRatio_eq, codeOfRatio_eq]
  refine min_le_min_right _ ?_
  have scales : scaleOfUnits (m / den) ≤ scaleOfUnits (n / den) :=
    scaleOfUnits_mono (Nat.div_le_div_right le)
  have width (scale : Nat) : 0 < den * 2 ^ scale := Nat.mul_pos positive (Nat.two_pow_pos scale)
  rcases Nat.lt_or_eq_of_le scales with less | same
  · have carried : roundQuotient m (den * 2 ^ scaleOfUnits (m / den)) ≤ 2 ^ 53 :=
      roundQuotient_le (width _) (by have := num_lt_scale m positive; omega)
    have long : 2 ^ 52 ≤ roundQuotient n (den * 2 ^ scaleOfUnits (n / den)) :=
      le_roundQuotient (width _) (le_num_of_scale positive (Nat.zero_lt_of_lt less))
    omega
  · rw [same]
    exact Nat.add_le_add_right (roundQuotient_mono _ le) _

theorem unitsOfCode_mono {a b : Nat} (le : a ≤ b) : unitsOfCode a ≤ unitsOfCode b := by
  have significandA := significandOfCode_eq a
  have significandB := significandOfCode_eq b
  have exponentA := scaleOfCode_eq a
  have exponentB := scaleOfCode_eq b
  rw [unitsOfCode_eq, unitsOfCode_eq]
  rcases Nat.lt_or_ge (scaleOfCode a) (scaleOfCode b) with less | same
  · calc significandOfCode a * 2 ^ scaleOfCode a
        ≤ 2 ^ 53 * 2 ^ scaleOfCode a := Nat.mul_le_mul_right _ (significandOfCode_lt a).le
      _ = 2 ^ 52 * 2 ^ (scaleOfCode a + 1) := by rw [Nat.pow_succ]; ring
      _ ≤ 2 ^ 52 * 2 ^ scaleOfCode b :=
        Nat.mul_le_mul_left _ (Nat.pow_le_pow_right (by decide) less)
      _ ≤ significandOfCode b * 2 ^ scaleOfCode b :=
        Nat.mul_le_mul_right _ (le_significandOfCode (Nat.zero_lt_of_lt less))
  · have same : scaleOfCode a = scaleOfCode b := by omega
    rw [same] at significandA ⊢
    exact Nat.mul_le_mul_right _ (by omega)

/-- What is nearest to a quotient is no larger than a finite double that bounds the quotient. -/
theorem nearest_le (negative : Bool) (bound : ofFloat x = .finite s v) (positive : 0 < den)
    (below : num ≤ v * den) :
    ∃ u, ofFloat (nearest negative num den) = .finite negative u ∧ u ≤ v := by
  obtain ⟨code, finite, -, rfl⟩ := eq_ofCode_of_ofFloat bound
  have least : codeOfRatio num den ≤ code := by
    have mono := codeOfRatio_mono positive below
    rwa [codeOfRatio_units finite positive] at mono
  exact ⟨_, ofFloat_ofCode negative (least.trans_lt finite), unitsOfCode_mono least⟩

section
variable {y b : Float} {t r : Bool} {u w : Nat}

theorem mul_le (left : ofFloat x = .finite s u) (right : ofFloat y = .finite t v)
    (bound : ofFloat b = .finite r w) (below : u * v ≤ w * oneUnits) :
    ∃ m, ofFloat (x * y) = .finite (s ^^ t) m ∧ m ≤ w := by
  rw [mul_eq left right]
  exact nearest_le _ bound oneUnits_pos below

theorem div_le (left : ofFloat x = .finite s u) (right : ofFloat y = .finite t v)
    (positive : 0 < v) (bound : ofFloat b = .finite r w) (below : u * oneUnits ≤ w * v) :
    ∃ m, ofFloat (x / y) = .finite (s ^^ t) m ∧ m ≤ w := by
  rw [div_eq left right positive.ne']
  exact nearest_le _ bound positive below

theorem natAbs_signedUnits_add (s t : Bool) (u v : Nat) :
    (signedUnits s u + signedUnits t v).natAbs ≤ u + v := by
  cases s <;> cases t <;> simp only [signedUnits, if_true, Bool.false_eq_true, if_false] <;> omega

/-- A sum is finite if its exact sizes leave half a place of the greatest double. -/
theorem isFinite_add (left : ofFloat x = .finite s u) (right : ofFloat y = .finite t v)
    (small : 2 * (u + v) < (2 ^ 54 - 1) * 2 ^ greatestScale) : isFinite (x + y) = true := by
  have size := natAbs_signedUnits_add s t u v
  rw [add_eq left right]
  refine isFinite_ofCode _ (codeOfRatio_lt Nat.one_pos ?_)
  rw [Nat.one_mul]
  exact (Nat.mul_le_mul_left 2 size).trans_lt small

end

theorem units_hundred : ofFloat 100 = .finite false (100 * oneUnits) := by
  decide

theorem nearestWhole_eq {x : Float} {u : Nat} (units : ofFloat x = .finite false u) :
    nearestWhole x = .ok (roundQuotient u oneUnits : Int) := by
  have natural : ¬ signedUnits false u < 0 := Int.not_lt.mpr (Int.natCast_nonneg u)
  unfold nearestWhole wholeBy
  simp only [units, if_neg natural, natAbs_signedUnits]

theorem units_one : ofFloat 1 = .finite false oneUnits := by
  decide

/-- Some of many things are a fraction of them. -/
theorem ratio_eq {part total : Nat} (le : part ≤ total) (positive : 0 < total) :
    ∃ x u, ratio part total = .ok x ∧ ofFloat x = .finite false u ∧ u ≤ oneUnits := by
  have below : part * oneUnits ≤ oneUnits * total := by
    rw [Nat.mul_comm]
    exact Nat.mul_le_mul_left _ le
  obtain ⟨u, decoded, bound⟩ := nearest_le false units_one positive below
  have sign : decide ((part : Int) < 0) = false := decide_eq_false (by omega)
  have isFinite := isFinite_iff.mpr ⟨false, u, decoded⟩
  refine ⟨_, u, ?_, decoded, bound⟩
  rw [ratio, ofQuotient, sign, Int.natAbs_natCast]
  exact if_pos isFinite

/-- A fraction has a percentage. -/
theorem percentage {x : Float} {u : Nat} (units : ofFloat x = .finite false u) (le : u ≤ oneUnits) :
    ∃ percent : Int, nearestWhole (x * 100) = .ok percent ∧ 0 ≤ percent ∧ percent ≤ 100 := by
  have below : u * (100 * oneUnits) ≤ 100 * oneUnits * oneUnits := by
    rw [Nat.mul_comm]
    exact Nat.mul_le_mul_left _ le
  obtain ⟨v, product, bound⟩ := mul_le units units_hundred units_hundred below
  have most : roundQuotient v oneUnits ≤ 100 := by
    calc roundQuotient v oneUnits ≤ roundQuotient (100 * oneUnits) oneUnits :=
          roundQuotient_mono _ bound
      _ = 100 := roundQuotient_mul 100 oneUnits_pos
  exact ⟨roundQuotient v oneUnits, nearestWhole_eq product, by omega, by omega⟩

end Binary64

end Toolpath
