import Mathlib
import Toolpath.Numeric.Circular
import Toolpath.Proofs.Numeric.Bounds

/-! Sines and cosines. Every angle that is not infinite has them, and those of a finite angle are
bounded. The bound is wide of one, but comes cheaply: the terms of a sum never grow, so it is no
larger than its first term times their number. -/
namespace Toolpath.Circular
open Binary64

theorem natAbs_ediv_le {a d : Int} {bound : Nat} (positive : 0 < d)
    (within : (a.natAbs : Int) ≤ bound * d) : (a / d).natAbs ≤ bound := by
  have least : -(bound : Int) ≤ a / d := by
    rw [Int.le_ediv_iff_mul_le positive]
    have := neg_mul (bound : Int) d
    omega
  have greatest : a / d ≤ bound := by
    have := Int.ediv_le_ediv positive (show a ≤ bound * d by omega)
    rwa [Int.mul_ediv_cancel _ positive.ne'] at this
  omega

/-- One, with the places of the sums. -/
def unit : Nat := 1 <<< sumBits

theorem unit_pos : 0 < unit := by decide

/-- A product of two sizes below one is below one. -/
theorem natAbs_product_le {a b : Int} (left : a.natAbs ≤ unit) (right : b.natAbs ≤ unit) :
    (a * b / unit).natAbs ≤ unit := by
  refine natAbs_ediv_le (Int.natCast_pos.mpr unit_pos) ?_
  rw [Int.natAbs_mul]
  exact_mod_cast Nat.mul_le_mul left right

theorem natAbs_taylorTerms {square : Int} (below : square.natAbs ≤ unit) (fuel : Nat) {term : Int}
    (small : term.natAbs ≤ unit) (n : Nat) :
    (taylorTerms square fuel term n).natAbs ≤ fuel * unit := by
  induction fuel generalizing term n with
  | zero => exact Nat.zero_le _
  | succ fuel ih =>
    have next : (-(term * square / unit) / ↑(n * (n + 1))).natAbs ≤ unit := by
      refine (Int.natAbs_ediv_le_natAbs _ _).trans ?_
      rw [Int.natAbs_neg]
      exact natAbs_product_le small below
    have rest := ih next (n + 2)
    rw [taylorTerms]
    split
    · exact Nat.zero_le _
    · rw [Nat.add_mul, Nat.one_mul]
      exact (Int.natAbs_add_le _ _).trans (by unfold unit at *; omega)

theorem natAbs_sineSum {r : Int} (small : r.natAbs ≤ unit) : (sineSum r).natAbs ≤ 64 * unit :=
  natAbs_taylorTerms (natAbs_product_le small small) 64 small 2

theorem natAbs_cosineSum {r : Int} (small : r.natAbs ≤ unit) : (cosineSum r).natAbs ≤ 64 * unit :=
  @natAbs_taylorTerms _ (natAbs_product_le small small) 64 unit (Int.natAbs_natCast unit).le 1

theorem natAbs_sineAt (quarters : Nat) {r : Int} (small : r.natAbs ≤ unit) :
    (sineAt quarters r).natAbs ≤ 64 * unit := by
  have sine := natAbs_sineSum small
  have cosine := natAbs_cosineSum small
  unfold sineAt
  split <;> simpa only [Int.natAbs_neg]

/-- What is left of an angle is at most half a quarter turn. -/
theorem natAbs_reduce (units : Nat) : (reduce units).2.natAbs ≤ unit := by
  have quarterTurn : halfPi ≤ 2 * (unit * 1 <<< (wideBits - sumBits)) := by decide +kernel
  have positive : 0 < halfPi := by decide +kernel
  refine natAbs_ediv_le (by decide) ?_
  generalize units <<< (wideBits - 1074) = angle
  have whole := Nat.div_add_mod (2 * angle + halfPi) (2 * halfPi)
  have rest := Nat.mod_lt (2 * angle + halfPi) (show 0 < 2 * halfPi by omega)
  rw [Nat.mul_assoc, Nat.mul_comm halfPi] at whole
  rw [← Nat.cast_mul, Nat.cast_le]
  generalize (2 * angle + halfPi) / (2 * halfPi) * halfPi = nearest at *
  generalize unit * 1 <<< (wideBits - sumBits) = limit at *
  omega

/-- A finite double of no more than 64. -/
def Bounded (y : Float) : Prop := ∃ s u, ofFloat y = .finite s u ∧ u ≤ 64 * oneUnits

theorem bounded_rounded {value : Int} (small : value.natAbs ≤ 64 * unit) :
    Bounded (rounded value) := by
  have bound : ofFloat (64 : Float) = .finite false (64 * oneUnits) := by decide
  have places : oneUnits = unit * 2 ^ (1074 - sumBits) := by decide +kernel
  have below : value.natAbs <<< (1074 - sumBits) ≤ 64 * oneUnits * 1 := by
    rw [Nat.shiftLeft_eq, Nat.mul_one]
    generalize 2 ^ (1074 - sumBits) = scale at *
    calc value.natAbs * scale ≤ 64 * unit * scale := Nat.mul_le_mul_right _ small
      _ = 64 * oneUnits := by rw [places, Nat.mul_assoc]
  obtain ⟨u, units, le⟩ := nearest_le (decide (value < 0)) bound Nat.one_pos below
  exact ⟨_, u, units, le⟩

variable {x : Float} {s : Bool} {u : Nat}

theorem exists_sine (units : ofFloat x = .finite s u) : ∃ y, sine x = .ok y ∧ Bounded y := by
  have small := natAbs_sineAt (reduce u).1 (natAbs_reduce u)
  unfold sine
  simp only [units]
  split
  · rename_i tiny
    have least : 1 <<< 1044 ≤ 64 * oneUnits := by decide
    have below : u < 1 <<< 1044 := of_decide_eq_true tiny
    exact ⟨x, rfl, s, u, units, below.le.trans least⟩
  · refine ⟨_, rfl, bounded_rounded ?_⟩
    split
    · rwa [Int.natAbs_neg]
    · exact small

theorem exists_cosine (units : ofFloat x = .finite s u) : ∃ y, cosine x = .ok y ∧ Bounded y := by
  have one : ofFloat (Binary64.ofInt 1) = .finite false oneUnits := by decide
  unfold cosine
  simp only [units]
  split
  · exact ⟨_, rfl, false, oneUnits, one, Nat.le_mul_of_pos_left _ (by decide)⟩
  · exact ⟨_, rfl, bounded_rounded (natAbs_sineAt _ (natAbs_reduce u))⟩

end Toolpath.Circular
