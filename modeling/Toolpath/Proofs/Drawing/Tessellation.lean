import Mathlib
import Toolpath.Proofs.Drawing.Lines
import Toolpath.Proofs.Numeric.Trigonometry

/-! The points on circles and arcs. There always is one, since an angle computed on the way is
finite or no number, and both have a sine and a cosine: the sweep of an arc is at most a full turn,
and even the greatest double does not reach infinity with so little added to it. The point itself
may be infinite or no number, but only if one of the numbers that it comes from is far out. -/
namespace Toolpath.Drawing
open Binary64 Circular Planar

/-! Numbers far from the limits. -/

/-- A number that is not far out. -/
def Moderate (x : Float) : Prop := -1e300 ≤ x ∧ x ≤ 1e300

instance (x : Float) : Decidable (Moderate x) := inferInstanceAs (Decidable (_ ∧ _))

/-- The greatest size of such a number. -/
def moderateUnits : Nat := unitsOfCode (codeOfFloat 1e300)

/-- The greatest size of what is made of such numbers. -/
def derivedUnits : Nat := unitsOfCode (codeOfFloat 1e303)

theorem units_derived : ofFloat 1e303 = .finite false derivedUnits := by decide +kernel

theorem derived_margin : moderateUnits * 64 ≤ derivedUnits ∧ moderateUnits ≤ derivedUnits ∧
    2 * (moderateUnits + derivedUnits) < (2 ^ 54 - 1) * 2 ^ greatestScale := by
  decide +kernel

theorem Moderate.units {x : Float} (moderate : Moderate x) (finite : isFinite x = true) :
    ∃ s u, ofFloat x = .finite s u ∧ u ≤ moderateUnits := by
  obtain ⟨low, high⟩ := moderate
  have least : ofFloat (-1e300) = .finite true moderateUnits := by decide +kernel
  have greatest : ofFloat 1e300 = .finite false moderateUnits := by decide +kernel
  obtain ⟨a, finiteA, lowest, unitsA⟩ := eq_ofCode_of_ofFloat least
  obtain ⟨b, finiteB, highest, unitsB⟩ := eq_ofCode_of_ofFloat greatest
  obtain ⟨negative, code, below, rfl⟩ := exists_ofCode finite
  refine ⟨negative, unitsOfCode code, ofFloat_ofCode negative below, ?_⟩
  rw [lowest, le_ofCode _ _ finiteA below] at low
  rw [highest, le_ofCode _ _ below finiteB] at high
  unfold signedCode at low high
  cases negative with
  | false =>
    rw [unitsB]
    exact unitsOfCode_mono (by simpa using high)
  | true =>
    rw [unitsA]
    exact unitsOfCode_mono (by simpa using low)

/-- The sum of a number that is not far out and of one made of such numbers. -/
theorem isFinite_sum {x y : Float} {s t : Bool} {u v : Nat} (left : ofFloat x = .finite s u)
    (right : ofFloat y = .finite t v) (small : u ≤ moderateUnits) (derived : v ≤ derivedUnits) :
    isFinite (x + y) = true := by
  obtain ⟨-, -, margin⟩ := derived_margin
  refine isFinite_add left right (lt_of_le_of_lt ?_ margin)
  exact Nat.mul_le_mul_left 2 (Nat.add_le_add small derived)

/-! Points. -/

/-- An angle that has a sine and a cosine. -/
def Angle (x : Float) : Prop := isFinite x = true ∨ x = nanValue

theorem units_radiansPerDegree :
    ∃ v, ofFloat radiansPerDegree = .finite false v ∧ v ≤ oneUnits := by
  refine ⟨unitsOfCode (codeOfFloat radiansPerDegree), ?_, ?_⟩ <;> decide

/-- A finite angle in degrees is a finite one in radians. -/
theorem radians_units {x : Float} (finite : isFinite x = true) :
    ∃ s u, ofFloat (x * radiansPerDegree) = .finite s u := by
  obtain ⟨s, u, units⟩ := isFinite_iff.mp finite
  obtain ⟨v, factor, le⟩ := units_radiansPerDegree
  obtain ⟨w, product, -⟩ := mul_le units factor units (Nat.mul_le_mul_left _ le)
  exact ⟨_, w, product⟩

theorem isFinite_offset {c r t : Float} (finiteC : isFinite c = true) (finiteR : isFinite r = true)
    (bounded : Bounded t) (moderateC : Moderate c) (moderateR : Moderate r) :
    isFinite (c + r * t) = true := by
  obtain ⟨s, u, center, smallC⟩ := moderateC.units finiteC
  obtain ⟨q, v, radius, smallR⟩ := moderateR.units finiteR
  obtain ⟨p, w, factor, small⟩ := bounded
  have below : v * w ≤ derivedUnits * oneUnits := by
    calc v * w ≤ moderateUnits * (64 * oneUnits) := Nat.mul_le_mul smallR small
      _ = moderateUnits * 64 * oneUnits := (Nat.mul_assoc _ _ _).symm
      _ ≤ derivedUnits * oneUnits := Nat.mul_le_mul_right _ derived_margin.1
  obtain ⟨m, product, derived⟩ := mul_le radius factor units_derived below
  exact isFinite_sum center product smallC derived

section
variable {cx cy r : Float} (finiteX : isFinite cx = true) (finiteY : isFinite cy = true)
  (finiteR : isFinite r = true)

theorem pointOnCircle_eq {x c s : Float} (cosine : (Angular.cosine x : Except Fault Float) = .ok c)
    (sine : (Angular.sine x : Except Fault Float) = .ok s) :
    pointOnCircle cx cy r x = .ok (cx + r * c, cy + r * s) := by
  rw [pointOnCircle, cosine, sine]
  rfl

include finiteX finiteY finiteR

theorem exists_point {x : Float} (angle : Angle x) : ∃ p, pointOnCircle cx cy r x = .ok p ∧
    (isFinite x = true → Moderate cx → Moderate cy → Moderate r → FinitePoint p) := by
  rcases angle with finite | rfl
  · obtain ⟨_, _, units⟩ := radians_units finite
    obtain ⟨c, cosine, boundedC⟩ := exists_cosine units
    obtain ⟨s, sine, boundedS⟩ := exists_sine units
    refine ⟨_, pointOnCircle_eq cosine sine, fun _ moderateX moderateY moderateR => ⟨?_, ?_⟩⟩
    · exact isFinite_offset finiteX finiteR boundedC moderateX moderateR
    · exact isFinite_offset finiteY finiteR boundedS moderateY moderateR
  · have none : isFinite nanValue = false := by decide
    have cosine : (Angular.cosine nanValue : Except Fault Float) = .ok nanValue :=
      congrArg Circular.cosine (nan_mul radiansPerDegree)
    have sine : (Angular.sine nanValue : Except Fault Float) = .ok nanValue :=
      congrArg Circular.sine (nan_mul radiansPerDegree)
    refine ⟨_, pointOnCircle_eq cosine sine, fun finite => ?_⟩
    rw [none] at finite
    cases finite

end

theorem exists_mapM {α β : Type} {f : α → Except Fault β} {P : β → Prop} {as : List α}
    (each : ∀ a ∈ as, ∃ b, f a = .ok b ∧ P b) : ∃ bs, as.mapM f = .ok bs ∧ ∀ b ∈ bs, P b := by
  induction as with
  | nil => exact ⟨[], rfl, by simp⟩
  | cons a as ih =>
    obtain ⟨b, first, holds⟩ := each a List.mem_cons_self
    obtain ⟨bs, rest, all⟩ := ih fun later member => each later (List.mem_cons_of_mem _ member)
    refine ⟨b :: bs, ?_, List.forall_mem_cons.mpr ⟨holds, all⟩⟩
    rw [List.mapM_cons, first, rest]
    rfl

/-- Points for a count of segments that is a double. -/
theorem exists_alongSegments {segments : Int} {point : Int → Except Fault (Float × Float)}
    {P : Float × Float → Prop}
    (counted : isFinite (ofQuotient (segments < 0) segments.natAbs 1) = true)
    (each : ∀ j : Nat, j < segments.toNat → ∃ p, point (j + 1) = .ok p ∧ P p) :
    ∃ path, alongSegments segments point = .ok path ∧ ∀ p ∈ path, P p := by
  have count : (Scalar.ratio segments 1 : Except Fault Float) =
      .ok (ofQuotient (segments < 0) segments.natAbs 1) := if_pos counted
  have listed : ∀ j ∈ List.range segments.toNat, ∃ p, point (↑j + 1) = .ok p ∧ P p :=
    fun j member => each j (List.mem_range.mp member)
  obtain ⟨path, points, all⟩ := exists_mapM listed
  unfold alongSegments
  split
  · exact ⟨[], rfl, by simp⟩
  · rw [count]
    exact ⟨path, points, all⟩

/-! Angles. -/

theorem units_fullTurn : ofFloat (fullTurn : Float) = .finite false (360 * oneUnits) := by
  decide

theorem arcSweep_eq (start stop : Float) : arcSweep start stop =
    if Scalar.le fullTurn (Binary64.modulo (stop - start) fullTurn) then Scalar.zero
    else Binary64.modulo (stop - start) fullTurn := rfl

/-- A sweep is at most a full turn, whatever the angles, unless their difference is not finite. -/
theorem arcSweep_units {start stop : Float} (finite : isFinite (stop - start) = true) :
    ∃ u, ofFloat (arcSweep start stop) = .finite false u ∧ u ≤ 360 * oneUnits := by
  have zero : ofFloat (Scalar.zero : Float) = .finite false 0 := by decide
  obtain ⟨s, u, units⟩ := isFinite_iff.mp finite
  have rest : u % (360 * oneUnits) < 360 * oneUnits :=
    Nat.mod_lt _ (Nat.mul_pos (by decide) oneUnits_pos)
  rw [arcSweep_eq]
  split
  · exact ⟨0, zero, Nat.zero_le _⟩
  · unfold Binary64.modulo
    rw [units, units_fullTurn]
    simp only
    split
    · exact nearest_le false units_fullTurn Nat.one_pos (by omega)
    · exact nearest_le false units_fullTurn Nat.one_pos (by omega)

theorem arcSweep_nan {start stop : Float} (notFinite : isFinite (stop - start) = false) :
    arcSweep start stop = nanValue := by
  have none : Binary64.modulo (stop - start) fullTurn = nanValue := by
    unfold isFinite at notFinite
    unfold Binary64.modulo
    cases decoded : ofFloat (stop - start) with
    | nan | infinite _ => rfl
    | finite s u => simp [decoded] at notFinite
  have above : ¬ Scalar.le (fullTurn : Float) nanValue = true := by decide
  rw [arcSweep_eq, none]
  exact if_neg above

/-- A part of a sweep, in 18 segments. -/
theorem segment_units {sweep : Float} {u : Nat} (units : ofFloat sweep = .finite false u)
    (most : u ≤ 360 * oneUnits) {j : Nat} (within : j < 18) :
    ∃ v, ofFloat (sweep * Scalar.ofInt (↑j + 1) / Scalar.ofInt 18) = .finite false v ∧
      v ≤ 360 * oneUnits := by
  have counts : ∀ j : Fin 18, ofFloat (Scalar.ofInt (↑(j : Nat) + 1) : Float) =
      .finite false ((j + 1) * oneUnits) := by decide
  have segments : ofFloat (Scalar.ofInt 18 : Float) = .finite false (18 * oneUnits) := by
    decide
  have turns : ofFloat (6480 : Float) = .finite false (6480 * oneUnits) := by decide
  have widened : u * ((j + 1) * oneUnits) ≤ 6480 * oneUnits * oneUnits := by
    calc u * ((j + 1) * oneUnits) ≤ 360 * oneUnits * (18 * oneUnits) :=
          Nat.mul_le_mul most (Nat.mul_le_mul_right _ within)
      _ = 6480 * oneUnits * oneUnits := by ring
  obtain ⟨w, product, bound⟩ := mul_le units (counts ⟨j, within⟩) turns widened
  have parted : w * oneUnits ≤ 360 * oneUnits * (18 * oneUnits) := by
    calc w * oneUnits ≤ 6480 * oneUnits * oneUnits := Nat.mul_le_mul_right _ bound
      _ = 360 * oneUnits * (18 * oneUnits) := by ring
  have positive : 0 < 18 * oneUnits := Nat.mul_pos (by decide) oneUnits_pos
  exact div_le product segments positive units_fullTurn parted

/-- A full turn more does not take a finite angle to infinity. -/
theorem isFinite_turned {x y : Float} {u : Nat} (finite : isFinite x = true)
    (units : ofFloat y = .finite false u) (most : u ≤ 360 * oneUnits) :
    isFinite (x + y) = true := by
  obtain ⟨negative, code, below, rfl⟩ := exists_ofCode finite
  have greatest := unitsOfCode_le below
  have little : oneUnits * 2 ^ 10 ≤ 2 ^ greatestScale := by
    rw [oneUnits_eq, ← Nat.pow_add]
    exact Nat.pow_le_pow_right (by decide) (by decide)
  have positive := oneUnits_pos
  refine isFinite_add (ofFloat_ofCode negative below) units ?_
  generalize 2 ^ greatestScale = limit at *
  omega

/-- The angles of an arc are finite if the difference of its ends is, and no number otherwise. -/
theorem arc_angle {start stop : Float} (finite : isFinite start = true) {j : Nat}
    (within : j < 18) :
    let angle := start + arcSweep start stop * Scalar.ofInt (↑j + 1) / Scalar.ofInt 18
    Angle angle ∧ (isFinite (stop - start) = true → isFinite angle = true) := by
  intro angle
  cases difference : isFinite (stop - start) with
  | true =>
    obtain ⟨u, sweep, most⟩ := arcSweep_units difference
    obtain ⟨v, part, bound⟩ := segment_units sweep most within
    have turned := isFinite_turned finite part bound
    exact ⟨.inl turned, fun _ => turned⟩
  | false =>
    have part : arcSweep start stop * Scalar.ofInt (↑j + 1) / Scalar.ofInt 18 = nanValue := by
      rw [arcSweep_nan difference, nan_mul, nan_div]
    refine ⟨.inr ?_, fun finite => ?_⟩
    · exact part ▸ add_nan start
    · cases finite

theorem isFinite_difference {start stop : Float} (finiteA : isFinite start = true)
    (finiteB : isFinite stop = true) (moderateA : Moderate start) (moderateB : Moderate stop) :
    isFinite (stop - start) = true := by
  obtain ⟨s, u, unitsA, smallA⟩ := moderateA.units finiteA
  obtain ⟨t, v, unitsB, smallB⟩ := moderateB.units finiteB
  obtain ⟨z, opposite, same⟩ := sub_eq stop unitsA
  rw [same]
  exact isFinite_sum unitsB opposite smallB (smallA.trans derived_margin.2.1)

/-! Circles and arcs. -/

section
variable {cx cy r : Float} (finiteX : isFinite cx = true) (finiteY : isFinite cy = true)
  (finiteR : isFinite r = true)
include finiteX finiteY finiteR

theorem exists_circlePoints : ∃ path, circlePoints cx cy r 36 = .ok path ∧
    ∀ p ∈ path, Moderate cx → Moderate cy → Moderate r → FinitePoint p := by
  have angles : ∀ j : Fin 36,
      isFinite (fullTurn * Scalar.ofInt (↑(j : Nat) + 1) / Scalar.ofInt 36 : Float) = true := by
    decide
  refine exists_alongSegments (by decide +kernel) fun j within => ?_
  have finite := angles ⟨j, within⟩
  obtain ⟨p, point, drawn⟩ := exists_point finiteX finiteY finiteR (.inl finite)
  exact ⟨p, point, drawn finite⟩

theorem exists_arcPoints {start stop : Float} (finiteA : isFinite start = true)
    (finiteB : isFinite stop = true) : ∃ path, arcPoints cx cy r start stop 18 = .ok path ∧
      ∀ p ∈ path, Moderate start → Moderate stop → Moderate cx → Moderate cy → Moderate r →
        FinitePoint p := by
  refine exists_alongSegments (by decide +kernel) fun j within => ?_
  obtain ⟨angle, finite⟩ := arc_angle finiteA within
  obtain ⟨p, point, drawn⟩ := exists_point finiteX finiteY finiteR angle
  refine ⟨p, point, fun moderateA moderateB => drawn (finite ?_)⟩
  exact isFinite_difference finiteA finiteB moderateA moderateB

end

end Toolpath.Drawing
