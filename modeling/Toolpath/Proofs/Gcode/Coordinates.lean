import Mathlib
import Toolpath.Proofs.Gcode.Grammar
import Toolpath.Proofs.Gcode.Numbers
import Toolpath.Proofs.Numeric.Value

/-! The text of a coordinate. It has as many decimals as asked for and says the multiple of their last
place that is nearest to the coordinate, by the exact value of the double. A minus stands before
negative numbers only, so what rounds to zero has none. -/
namespace Toolpath.Gcode
open Binary64 Decimal

/-- A number in writing: a minus or none, at least one digit, and behind a point as many digits as there
are to be places. Without places there is no point. -/
structure FixedDecimal (places : Nat) where
  negative : Bool
  whole : List Char
  part : List Char
  filled : whole ≠ []
  digits : ∀ c ∈ whole ++ part, c.isDigit = true
  length : part.length = places

namespace FixedDecimal
variable {places : Nat}

/-- The digits and the point, without the sign. -/
def unsigned (w : FixedDecimal places) : List Char :=
  w.whole ++ if places = 0 then [] else '.' :: w.part

def text (w : FixedDecimal places) : List Char := signed w.negative w.unsigned

/-- The number that the digits say. -/
def value (w : FixedDecimal places) : ℚ :=
  signedUnits w.negative (digitsValue (w.whole ++ w.part)) / 10 ^ places

theorem splitSign_text (w : FixedDecimal places) : splitSign w.text = (w.negative, w.unsigned) := by
  obtain ⟨c, rest, shape⟩ := List.exists_cons_of_ne_nil w.filled
  have digit : c.isDigit = true :=
    w.digits c (List.mem_append_left _ (shape ▸ List.mem_cons_self))
  rw [text, unsigned, shape]
  exact splitSign_signed w.negative digit _

/-- A text has one reading as a sign and digits. -/
theorem text_injective {v w : FixedDecimal places} (same : v.text = w.text) : v = w := by
  obtain ⟨sign, unsigned⟩ : v.negative = w.negative ∧ v.unsigned = w.unsigned := by
    have split := congrArg splitSign same
    rw [splitSign_text, splitSign_text] at split
    exact Prod.mk.inj split
  have lengths := v.length.trans w.length.symm
  have parts : v.whole = w.whole ∧ v.part = w.part := by
    unfold FixedDecimal.unsigned at unsigned
    split at unsigned
    · rename_i none
      rw [List.append_nil, List.append_nil] at unsigned
      have empty (u : FixedDecimal places) : u.part = [] :=
        List.length_eq_zero_iff.mp (u.length.trans none)
      exact ⟨unsigned, (empty v).trans (empty w).symm⟩
    · obtain ⟨whole, part⟩ := List.append_inj' unsigned (by simp [lengths])
      exact ⟨whole, (List.cons.inj part).2⟩
  obtain ⟨negative, whole, part, _, _, _⟩ := v
  obtain ⟨negative', whole', part', _, _, _⟩ := w
  obtain rfl : negative = negative' := sign
  obtain ⟨rfl, rfl⟩ : whole = whole' ∧ part = part' := parts
  rfl

/-- `n` units of the last place in writing. -/
def ofInt (places : Nat) (n : ℤ) : FixedDecimal places where
  negative := decide (n < 0)
  whole := placesWhole places n.natAbs
  part := placesPart places n.natAbs
  filled := natural_ne_nil _
  digits c member := by
    rcases List.mem_append.mp member with whole | part
    · exact isDigit_of_mem_natural whole
    · exact isDigit_of_mem_placesPart part
  length := length_placesPart places n.natAbs

theorem ofInt_value (places : Nat) (n : ℤ) : (ofInt places n).value = n / 10 ^ places := by
  rw [value, ofInt, digitsValue_places, signedUnits_natAbs fun _ => rfl]

theorem ofInt_text (places : Nat) (n : ℤ) :
    (ofInt places n).text = (⟨decide (n < 0), places, n.natAbs⟩ : Numeral).text := by
  rw [text, unsigned, Numeral.text, withPlaces_eq]
  rfl

/-- The minus of a number stands before a negative value. -/
theorem ofInt_negative (places : Nat) (n : ℤ) :
    (ofInt places n).negative = true ↔ (ofInt places n).value < 0 := by
  have tens : (0 : ℚ) < 10 ^ places := by positivity
  rw [ofInt_value, div_lt_iff₀ tens, zero_mul, Int.cast_lt_zero, ofInt, decide_eq_true_eq]

end FixedDecimal

theorem nearestEven_signed {q : ℚ} {m : Nat} (nearest : NearestEven q m) (negative : Bool) :
    NearestEven (if negative then -q else q) (signedUnits negative m) := by
  cases negative
  · exact nearest
  · exact nearest.neg

theorem signedUnits_negative (negative : Bool) (n : Nat) :
    decide (signedUnits negative n < 0) = (negative && n != 0) := by
  rw [Bool.eq_iff_iff]
  cases negative
  · simp [signedUnits]
  · simp [signedUnits]
    omega

/-- A coordinate is written as the nearest multiple of its last place. -/
theorem coordinate_fixed (places : Nat) {x : Float} (finite : isFinite x = true) :
    ∃ n : ℤ, NearestEven (value x * 10 ^ places) n ∧
      coordinate places x = (FixedDecimal.ofInt places n).text := by
  obtain ⟨negative, code, below, rfl⟩ := exists_ofCode finite
  refine ⟨signedUnits negative (scaledMagnitude places (unitsOfCode code)), ?_, ?_⟩
  · have magnitude := roundQuotient_nearestEven (unitsOfCode code * 10 ^ places) oneUnits_pos
    have scaled : value (ofCode negative code) * 10 ^ places =
        if negative then -(((unitsOfCode code * 10 ^ places : Nat) : ℚ) / oneUnits)
        else ((unitsOfCode code * 10 ^ places : Nat) : ℚ) / oneUnits := by
      rw [value_ofCode negative below]
      cases negative <;> simp [signedUnits] <;> ring
    rw [scaled]
    exact nearestEven_signed magnitude negative
  · rw [coordinate_ofCode places negative below, FixedDecimal.ofInt_text, coordinateNumeral,
      natAbs_signedUnits, signedUnits_negative]

/-- Coordinates are written alike exactly if they round to the same number. -/
theorem coordinate_eq_iff (places : Nat) {x y : Float} (finiteX : isFinite x = true)
    (finiteY : isFinite y = true) : coordinate places x = coordinate places y ↔
      ∃ k : ℤ, NearestEven (value x * 10 ^ places) k ∧ NearestEven (value y * 10 ^ places) k := by
  obtain ⟨m, nearestX, textX⟩ := coordinate_fixed places finiteX
  obtain ⟨n, nearestY, textY⟩ := coordinate_fixed places finiteY
  rw [textX, textY]
  constructor
  · intro same
    have values := congrArg FixedDecimal.value (FixedDecimal.text_injective same)
    rw [FixedDecimal.ofInt_value, FixedDecimal.ofInt_value, div_left_inj' (by positivity),
      Int.cast_inj] at values
    exact ⟨m, nearestX, values ▸ nearestY⟩
  · rintro ⟨k, first, second⟩
    rw [nearestX.unique first, nearestY.unique second]

/-- What a text says of a coordinate: the nearest multiple of the last place, of two equally near the
one with an even last digit, and a minus exactly if that is negative. Behind a letter the whole text
is scanned as the number of a word. -/
structure Writes (places : Nat) (x : Float) (w : FixedDecimal places) : Prop where
  nearest : ∃ n : ℤ, NearestEven (Binary64.value x * 10 ^ places) n ∧ w.value = n / 10 ^ places
  sign : w.negative = true ↔ w.value < 0
  scanned : ∀ {c letter : Char} {rest : List Char}, capitalLetter? c = some letter → Ends rest →
    Word.scan? (c :: (w.text ++ rest)) = some (⟨c, letter, w.text⟩, rest)

theorem coordinate_writes (places : Nat) {x : Float} (finite : isFinite x = true) :
    ∃ w : FixedDecimal places, coordinate places x = w.text ∧ Writes places x w := by
  obtain ⟨n, nearest, text⟩ := coordinate_fixed places finite
  refine ⟨.ofInt places n, text, ⟨n, nearest, FixedDecimal.ofInt_value places n⟩,
    FixedDecimal.ofInt_negative places n, ?_⟩
  intro c letter rest capital ends
  have number : Number (FixedDecimal.ofInt places n).text := by
    rw [FixedDecimal.ofInt_text]
    exact number_text _
  have legal : (⟨c, letter, (FixedDecimal.ofInt places n).text⟩ : Word).Legal := ⟨capital, number⟩
  exact Word.scan?_complete legal ends

/-- Coordinates in order say numbers in order. -/
theorem Writes.mono {places : Nat} {x y : Float} {v w : FixedDecimal places} (first : Writes places x v)
    (second : Writes places y w) (le : value x ≤ value y) : v.value ≤ w.value := by
  have tens : (0 : ℚ) < 10 ^ places := by positivity
  obtain ⟨m, nearestM, valueM⟩ := first.nearest
  obtain ⟨n, nearestN, valueN⟩ := second.nearest
  rw [valueM, valueN, div_le_div_iff_of_pos_right tens, Int.cast_le]
  exact nearestM.mono (mul_le_mul_of_nonneg_right le tens.le) nearestN

/-- A finite coordinate is written with the places asked for, correctly rounded and in order, up to as
many as can be read. Where there are more places than can be asked for it is not written at all. -/
theorem coordinate?_rounds {precision : Int} (nonnegative : 0 ≤ precision) :
    (precision ≤ readablePlaces →
      (∀ x, isFinite x = true → ∃ w : FixedDecimal precision.toNat,
        coordinate? precision x = .ok w.text ∧ Writes precision.toNat x w) ∧
      ∀ (x y : Float) (v w : FixedDecimal precision.toNat), isFinite x = true → isFinite y = true →
        x ≤ y → coordinate? precision x = .ok v.text → coordinate? precision y = .ok w.text →
          v.value ≤ w.value) ∧
    (maxPlaces < precision → ∀ x, coordinate? precision x = .error .unusablePrecision) := by
  constructor
  · intro readable
    have usable : places? precision = .ok precision.toNat :=
      if_pos ⟨nonnegative, places_of_readable readable⟩
    have written (x : Float) (finite : isFinite x = true) : ∃ w : FixedDecimal precision.toNat,
        coordinate? precision x = .ok w.text ∧ Writes precision.toNat x w := by
      obtain ⟨w, text, writes⟩ := coordinate_writes precision.toNat finite
      refine ⟨w, ?_, writes⟩
      rw [coordinate?, usable, ← text]
      rfl
    refine ⟨written, fun x y v w finiteX finiteY le textX textY => ?_⟩
    obtain ⟨v', sameX, first⟩ := written x finiteX
    obtain ⟨w', sameY, second⟩ := written y finiteY
    obtain rfl : v = v' := FixedDecimal.text_injective (Except.ok.inj (textX.symm.trans sameX))
    obtain rfl : w = w' := FixedDecimal.text_injective (Except.ok.inj (textY.symm.trans sameY))
    exact first.mono second ((le_iff_value finiteX finiteY).mp le)
  · intro beyond x
    have unusable : places? precision = .error .unusablePrecision := if_neg (by omega)
    rw [coordinate?, unusable]
    rfl

/-- An eighth lies between two hundredths; the even one is written. -/
theorem coordinate?_eighth : (0 : Int) ≤ 2 ∧ (2 : Int) ≤ readablePlaces ∧ isFinite 0.125 = true ∧
    ∃ w : FixedDecimal 2, coordinate? 2 0.125 = .ok w.text ∧ w.text = "0.12".toList ∧
      Writes 2 0.125 w := by
  have finite : isFinite 0.125 = true := by decide
  obtain ⟨w, text, writes⟩ := ((coordinate?_rounds (by decide : (0 : Int) ≤ 2)).1 (by decide)).1 _ finite
  have spelt : coordinate? 2 0.125 = .ok "0.12".toList := by decide
  exact ⟨by decide, by decide, finite, w, text, Except.ok.inj (text.symm.trans spelt), writes⟩

/-- One decimal more than can be asked for. -/
theorem coordinate?_too_precise : (0 : Int) ≤ 2147483648 ∧ isFinite 1 = true ∧
    coordinate? 2147483648 1 = .error .unusablePrecision :=
  ⟨by decide, by decide, rfl⟩

end Toolpath.Gcode
