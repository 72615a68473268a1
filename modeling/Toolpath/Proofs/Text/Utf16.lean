import Mathlib
import Toolpath.Text.Utf16

/-! Code points against code units. Units are the same again after they were read as code points; code
points are the same again after they were written in units exactly if no two of them join. A character has one
unit or two, so in general it has not the place among the units that it has among the characters. -/
namespace Toolpath.Text

theorem isHighHalf_iff {n : Nat} : isHighHalf n = true ↔ 0xD800 ≤ n ∧ n < 0xDC00 := by
  simp [isHighHalf]

theorem isLowHalf_iff {n : Nat} : isLowHalf n = true ↔ 0xDC00 ≤ n ∧ n < 0xE000 := by
  simp [isLowHalf]

theorem unitsOfPoint_single {p : CodePoint} (single : p.val < 0x10000) :
    unitsOfPoint p = [UInt16.ofNat p.val] :=
  if_pos single

theorem unitsOfPoint_pair {p : CodePoint} (pair : 0x10000 ≤ p.val) : unitsOfPoint p =
    [UInt16.ofNat (0xD800 + (p.val - 0x10000) / 0x400), UInt16.ofNat (0xDC00 + (p.val - 0x10000) % 0x400)] :=
  if_neg (Nat.not_lt.mpr pair)

theorem point_val {n : Nat} (small : n < 0x110000) : (Fin.ofNat 0x110000 n).val = n :=
  Nat.mod_eq_of_lt small

theorem unit_toNat {n : Nat} (small : n < 0x10000) : (UInt16.ofNat n).toNat = n := by
  rw [UInt16.toNat_ofNat']
  exact Nat.mod_eq_of_lt small

theorem point_unit (u : UInt16) : (Fin.ofNat 0x110000 u.toNat).val = u.toNat :=
  point_val (Nat.lt_trans u.toNat_lt (by decide))

theorem unitsOfPoint_unit (u : UInt16) : unitsOfPoint (Fin.ofNat 0x110000 u.toNat) = [u] := by
  have single : (Fin.ofNat 0x110000 u.toNat).val < 0x10000 := by
    rw [point_unit]
    exact u.toNat_lt
  rw [unitsOfPoint_single single, point_unit, UInt16.ofNat_toNat]

theorem unitsOfPoints_cons (p : CodePoint) (points : List CodePoint) :
    unitsOfPoints (p :: points) = unitsOfPoint p ++ unitsOfPoints points :=
  List.flatMap_cons

theorem unitsOfPoints_pointsOfUnits (units : List UInt16) : unitsOfPoints (pointsOfUnits units) = units := by
  induction units using pointsOfUnits.induct with
  | case1 => rfl
  | case2 u => exact (unitsOfPoints_cons _ []).trans (by rw [unitsOfPoint_unit]; rfl)
  | case3 u v rest pair ih =>
    obtain ⟨high, low⟩ := Bool.and_eq_true_iff.mp pair
    have first := isHighHalf_iff.mp high
    have second := isLowHalf_iff.mp low
    have value := point_val (n := 0x10000 + (u.toNat - 0xD800) * 0x400 + (v.toNat - 0xDC00)) (by omega)
    have quotient : 0xD800 + (0x10000 + (u.toNat - 0xD800) * 0x400 + (v.toNat - 0xDC00) - 0x10000) / 0x400 =
        u.toNat := by omega
    have remainder : 0xDC00 + (0x10000 + (u.toNat - 0xD800) * 0x400 + (v.toNat - 0xDC00) - 0x10000) % 0x400 =
        v.toNat := by omega
    rw [pointsOfUnits, if_pos pair, unitsOfPoints_cons, ih, unitsOfPoint_pair (by omega), value, quotient,
      remainder, UInt16.ofNat_toNat, UInt16.ofNat_toNat]
    rfl
  | case4 u v rest apart ih =>
    rw [pointsOfUnits, if_neg apart, unitsOfPoints_cons, ih, unitsOfPoint_unit]
    rfl

/-- What comes back of code points that were written in units. -/
def joinHalves (points : List CodePoint) : List CodePoint := pointsOfUnits points

theorem unitsOfPoints_joinHalves (points : List CodePoint) :
    unitsOfPoints (joinHalves points) = unitsOfPoints points :=
  unitsOfPoints_pointsOfUnits points

/-- Nowhere does a low half stand right behind a high one. -/
def Apart (points : List CodePoint) : Prop :=
  points.IsChain fun p q => ¬ (isHighHalf p.val = true ∧ isLowHalf q.val = true)

instance (points : List CodePoint) : Decidable (Apart points) :=
  inferInstanceAs (Decidable (List.IsChain _ _))

theorem pointsOfUnits_pair {u v : UInt16} (pair : isHighHalf u.toNat = true ∧ isLowHalf v.toNat = true)
    (rest : List UInt16) : pointsOfUnits (u :: v :: rest) =
      Fin.ofNat 0x110000 (0x10000 + (u.toNat - 0xD800) * 0x400 + (v.toNat - 0xDC00)) :: pointsOfUnits rest :=
  if_pos (Bool.and_eq_true_iff.mpr pair)

/-- A unit that nothing joins is a code point of its own. -/
theorem pointsOfUnits_single {u : UInt16} {rest : List UInt16}
    (alone : ∀ v ∈ rest.head?, ¬ (isHighHalf u.toNat = true ∧ isLowHalf v.toNat = true)) :
    pointsOfUnits (u :: rest) = Fin.ofNat 0x110000 u.toNat :: pointsOfUnits rest := by
  cases rest with
  | nil => rfl
  | cons v rest => exact if_neg fun pair => alone v rfl (Bool.and_eq_true_iff.mp pair)

/-- The first unit of a code point is a low half if the code point is. -/
theorem low_of_head {p : CodePoint} {points : List CodePoint} {v : UInt16}
    (first : v ∈ (unitsOfPoints (p :: points)).head?) : isLowHalf v.toNat = isLowHalf p.val := by
  rw [unitsOfPoints_cons] at first
  rcases Nat.lt_or_ge p.val 0x10000 with single | pair
  · rw [unitsOfPoint_single single] at first
    obtain rfl := Option.some.inj first
    rw [unit_toNat single]
  · have below := p.isLt
    rw [unitsOfPoint_pair pair] at first
    obtain rfl := Option.some.inj first
    rw [unit_toNat (by omega), Bool.eq_iff_iff, isLowHalf_iff, isLowHalf_iff]
    omega

theorem joinHalves_of_apart {points : List CodePoint} (apart : Apart points) : joinHalves points = points := by
  induction points with
  | nil => rfl
  | cons p points ih =>
    have rest : pointsOfUnits (unitsOfPoints points) = points := ih apart.tail
    change pointsOfUnits (unitsOfPoints (p :: points)) = _
    rw [unitsOfPoints_cons]
    rcases Nat.lt_or_ge p.val 0x10000 with single | pair
    · have alone : ∀ v ∈ (unitsOfPoints points).head?,
          ¬ (isHighHalf (UInt16.ofNat p.val).toNat = true ∧ isLowHalf v.toNat = true) := by
        rintro v first ⟨high, low⟩
        rw [unit_toNat single] at high
        cases points with
        | nil => cases first
        | cons q points => exact apart.rel ⟨high, low_of_head first ▸ low⟩
      rw [unitsOfPoint_single single, List.singleton_append, pointsOfUnits_single alone, rest, unit_toNat single]
      exact congrArg (· :: points) (Fin.ext (point_val p.isLt))
    · have below := p.isLt
      have high := unit_toNat (n := 0xD800 + (p.val - 0x10000) / 0x400) (by omega)
      have low := unit_toNat (n := 0xDC00 + (p.val - 0x10000) % 0x400) (by omega)
      have value : 0x10000 + (0xD800 + (p.val - 0x10000) / 0x400 - 0xD800) * 0x400 +
          (0xDC00 + (p.val - 0x10000) % 0x400 - 0xDC00) = p.val := by omega
      rw [unitsOfPoint_pair pair, List.cons_append, List.singleton_append, pointsOfUnits_pair, rest, high, low,
        value]
      · exact congrArg (· :: points) (Fin.ext (point_val p.isLt))
      · rw [high, low, isHighHalf_iff, isLowHalf_iff]
        omega

theorem apart_pointsOfUnits (units : List UInt16) : Apart (pointsOfUnits units) := by
  induction units using pointsOfUnits.induct with
  | case1 => exact .nil
  | case2 u => exact .singleton _
  | case3 u v rest pair ih =>
    rw [pointsOfUnits, if_pos pair]
    obtain ⟨high, low⟩ := Bool.and_eq_true_iff.mp pair
    have first := isHighHalf_iff.mp high
    have second := isLowHalf_iff.mp low
    have value := point_val (n := 0x10000 + (u.toNat - 0xD800) * 0x400 + (v.toNat - 0xDC00)) (by omega)
    refine ih.cons fun q _ ⟨half, _⟩ => ?_
    rw [value, isHighHalf_iff] at half
    omega
  | case4 u v rest apart ih =>
    rw [pointsOfUnits, if_neg apart]
    have units := unitsOfPoints_pointsOfUnits (v :: rest)
    refine ih.cons fun q first ⟨high, low⟩ => apart ?_
    obtain ⟨qs, shape⟩ := List.head?_eq_some_iff.mp first
    rw [shape] at units
    rw [point_unit] at high
    have head : v ∈ (unitsOfPoints (q :: qs)).head? := by
      rw [units]
      rfl
    exact Bool.and_eq_true_iff.mpr ⟨high, low_of_head head ▸ low⟩

theorem joinHalves_eq_self_iff (points : List CodePoint) : joinHalves points = points ↔ Apart points :=
  ⟨fun same => same ▸ apart_pointsOfUnits _, joinHalves_of_apart⟩

/-! The units of a text's characters. -/

def unitCount (cs : List Char) : Nat := (toUnits cs).length

theorem unitCount_append (a b : List Char) : unitCount (a ++ b) = unitCount a + unitCount b := by
  rw [unitCount, toUnits, List.flatMap_append, List.length_append]
  rfl

theorem unitsOfChar_pos (c : Char) : 0 < (unitsOfChar c).length := by
  unfold unitsOfChar unitsOfPoint
  split <;> exact Nat.succ_pos _

theorem unitCount_cons (c : Char) (cs : List Char) :
    unitCount (c :: cs) = (unitsOfChar c).length + unitCount cs := by
  rw [unitCount, toUnits, List.flatMap_cons, List.length_append]
  rfl

theorem length_le_unitCount (cs : List Char) : cs.length ≤ unitCount cs := by
  induction cs with
  | nil => exact Nat.le_refl 0
  | cons c cs ih =>
    have first := unitsOfChar_pos c
    rw [unitCount_cons, List.length_cons]
    omega

/-- Up to U+FFFF a character has one unit. -/
theorem length_unitsOfChar {c : Char} (narrow : c.toNat < 0x10000) : (unitsOfChar c).length = 1 := by
  have value : (pointOfChar c).val = c.toNat := point_val (by omega)
  rw [unitsOfChar, unitsOfPoint_single (value ▸ narrow)]
  rfl

theorem unitCount_narrow {cs : List Char} (narrow : ∀ c ∈ cs, c.toNat < 0x10000) : unitCount cs = cs.length := by
  induction cs with
  | nil => rfl
  | cons c cs ih =>
    obtain ⟨first, rest⟩ := List.forall_mem_cons.mp narrow
    rw [unitCount_cons, length_unitsOfChar first, ih rest, List.length_cons, Nat.add_comm]

/-- The unit with this number is one of the character at a place. -/
def HasUnit (cs : List Char) (place unit : Nat) : Prop :=
  unitCount (cs.take place) ≤ unit ∧ unit < unitCount (cs.take (place + 1))

/-- As long as every character has one unit, places and units have the same numbers. -/
theorem hasUnit_iff {cs : List Char} {place : Nat} (inside : place < cs.length)
    (narrow : ∀ c ∈ cs.take (place + 1), c.toNat < 0x10000) (unit : Nat) :
    HasUnit cs place unit ↔ unit = place := by
  have before : ∀ c ∈ cs.take place, c.toNat < 0x10000 := fun c member =>
    narrow c ((List.take_sublist_take_left place.le_succ).subset member)
  rw [HasUnit, unitCount_narrow narrow, unitCount_narrow before, List.length_take, List.length_take]
  omega

end Toolpath.Text
