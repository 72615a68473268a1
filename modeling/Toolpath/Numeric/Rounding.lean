/-! Rounding a quotient of naturals to a natural: the nearest one, and of two equally near the even one.
The lemmas say that the result is within half a unit and that a multiple of the divisor is kept. -/
namespace Toolpath

/-- `num / den` rounded to the nearest natural; a half goes to the even neighbour. -/
def roundQuotient (num den : Nat) : Nat :=
  if 2 * (num % den) < den ∨ (2 * (num % den) = den ∧ num / den % 2 = 0) then num / den
  else num / den + 1

theorem roundQuotient_mul {den : Nat} (n : Nat) (positive : 0 < den) : roundQuotient (n * den) den = n := by
  simp [roundQuotient, Nat.mul_div_cancel n positive, positive]

theorem roundQuotient_zero (den : Nat) : roundQuotient 0 den = 0 := by
  by_cases h : den = 0 <;> simp [roundQuotient, h]

/-- The rounded quotient is at most half a unit above the exact one. -/
theorem roundQuotient_upper (num : Nat) {den : Nat} (positive : 0 < den) :
    2 * (roundQuotient num den * den) ≤ 2 * num + den := by
  have split := Nat.div_add_mod num den
  have bound := Nat.mod_lt num positive
  have commuted : num / den * den = den * (num / den) := Nat.mul_comm _ _
  unfold roundQuotient
  split
  · omega
  · rename_i far
    have successor : (num / den + 1) * den = den * (num / den) + den := by
      rw [Nat.add_mul, Nat.one_mul, commuted]
    omega

/-- The rounded quotient is at most half a unit below the exact one. -/
theorem roundQuotient_lower (num : Nat) {den : Nat} (positive : 0 < den) :
    2 * num ≤ 2 * (roundQuotient num den * den) + den := by
  have split := Nat.div_add_mod num den
  have bound := Nat.mod_lt num positive
  have commuted : num / den * den = den * (num / den) := Nat.mul_comm _ _
  unfold roundQuotient
  split
  · omega
  · have successor : (num / den + 1) * den = den * (num / den) + den := by
      rw [Nat.add_mul, Nat.one_mul, commuted]
    omega

end Toolpath
