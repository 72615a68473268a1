import Mathlib
import Toolpath.Proofs.Numeric.Nearest

/-! The arithmetic of doubles. The float model shifts a mantissa to the exponent of its format and
keeps two bits of what it drops; these bits say as much as the exact quotient does, so the model
rounds as `roundQuotient` does. A sum, a product and a quotient of finite doubles are therefore the
exact ones, rounded once by `nearest`. -/
namespace Toolpath.Binary64
open Float.Model (Format UnpackedFloat totalExponent)
open Float.Model.UnpackedFloat (ExtendedMantissa Accuracy accuracyOfFraction roundWithAccuracy
  shiftToTargetExponent shiftToExponent)

/-- A mantissa with the two bits below it stands for a quotient. The bits tell a remainder of
nothing, of less than half, of half and of more than half. -/
structure Stands (em : ExtendedMantissa) (num den : Nat) : Prop where
  mantissa : em.mantissa = num / den
  roundBit : em.roundBit = true ↔ den ≤ 2 * (num % den)
  stickyBit : em.stickyBit = true ↔ num % den ≠ 0 ∧ 2 * (num % den) ≠ den

variable {em : ExtendedMantissa} {num den m rest : Nat}

theorem Stands.roundedMantissa (stands : Stands em num den) (positive : 0 < den) :
    em.roundedMantissa = roundQuotient num den := by
  obtain ⟨q, half, more⟩ := em
  obtain ⟨rfl, roundBit, stickyBit⟩ := stands
  unfold roundQuotient
  cases half <;> cases more <;>
    simp only [Bool.false_eq_true, false_iff, true_iff] at roundBit stickyBit <;>
    simp only [ExtendedMantissa.roundedMantissa, ExtendedMantissa.accuracy,
      Accuracy.roundToNearestEven] <;>
    split <;> omega

theorem Stands.shiftRightOne (stands : Stands em num den) (positive : 0 < den) :
    Stands em.shiftRightOne num (den * 2) := by
  have mod : num % (den * 2) = num % den + den * (num / den % 2) := Nat.mod_mul
  have bound := Nat.mod_lt num positive
  have parity := Nat.mod_two_eq_zero_or_one (num / den)
  constructor
  · rw [ExtendedMantissa.shiftRightOne, stands.mantissa, Nat.div_div_eq_div_mul]
  · rw [ExtendedMantissa.shiftRightOne, stands.mantissa, bne_iff_ne, mod]
    rcases parity with even | odd
    · rw [even]
      omega
    · rw [odd]
      omega
  · rw [ExtendedMantissa.shiftRightOne, Bool.or_eq_true, stands.roundBit, stands.stickyBit, mod]
    rcases parity with even | odd
    · rw [even]
      omega
    · rw [odd]
      omega

theorem Stands.shiftRight (stands : Stands em num den) (positive : 0 < den) (count : Nat) :
    Stands (em >>> count) num (den * 2 ^ count) := by
  induction count with
  | zero =>
    rw [Nat.pow_zero, Nat.mul_one]
    exact stands
  | succ count ih =>
    rw [Nat.pow_succ, ← Nat.mul_assoc]
    exact ih.shiftRightOne (Nat.mul_pos positive (Nat.two_pow_pos count))

theorem stands_ofFraction (positive : 0 < den) (below : rest < den) :
    Stands (.ofMantissaAndAccuracy m (accuracyOfFraction rest den)) (m * den + rest) den := by
  have whole : (m * den + rest) / den = m := by
    rw [Nat.mul_comm, Nat.mul_add_div positive, Nat.div_eq_of_lt below, Nat.add_zero]
  have left : (m * den + rest) % den = rest := by
    rw [Nat.mul_comm, Nat.mul_add_mod, Nat.mod_eq_of_lt below]
  unfold accuracyOfFraction
  by_cases zero : rest = 0
  · rw [if_pos zero]
    constructor <;> simp only [whole, left, ExtendedMantissa.ofMantissaAndAccuracy,
      Bool.false_eq_true, false_iff] <;> omega
  · rw [if_neg zero]
    rcases Nat.lt_trichotomy (2 * rest) den with less | same | more
    · rw [compare_lt_iff_lt.mpr less]
      constructor <;> simp only [whole, left, ExtendedMantissa.ofMantissaAndAccuracy,
        Bool.false_eq_true, false_iff, true_iff] <;> omega
    · rw [compare_eq_iff_eq.mpr same]
      constructor <;> simp only [whole, left, ExtendedMantissa.ofMantissaAndAccuracy,
        Bool.false_eq_true, false_iff, true_iff] <;> omega
    · rw [compare_gt_iff_gt.mpr more]
      constructor <;> simp only [whole, left, ExtendedMantissa.ofMantissaAndAccuracy,
        true_iff] <;> omega

/-- The exponent that the model shifts a mantissa to, if that is not below its own. -/
def targetOf (m : Nat) (e : Int) : Int := max (m.log2 + e - 52) (-1074)

theorem targetExponent_eq (m : Nat) (e : Int) :
    Format.binary64.targetExponent (totalExponent m e) = targetOf m e := by
  simp only [Format.targetExponent, totalExponent, Format.mantissaBits, Format.minExponent,
    targetOf]
  omega

theorem shift_eq (m : Nat) (e : Int) (accuracy : Accuracy) :
    shiftToTargetExponent Format.binary64 m e accuracy =
      (ExtendedMantissa.ofMantissaAndAccuracy m accuracy >>> (targetOf m e - e).toNat,
        e + (targetOf m e - e).toNat) := by
  rw [shiftToTargetExponent, targetExponent_eq]
  rfl

theorem code_fields {q scale : Nat} (long : scale ≠ 0 → 2 ^ 52 ≤ q) (short : q < 2 ^ 53) :
    significandOfCode (q + scale * 2 ^ 52) = q ∧ scaleOfCode (q + scale * 2 ^ 52) = scale := by
  have significand := significandOfCode_eq (q + scale * 2 ^ 52)
  have exponent := scaleOfCode_eq (q + scale * 2 ^ 52)
  omega

/-- Rounding may carry a significand one bit too far, which the second shift of the model takes
back. -/
theorem shift_carried {q scale : Nat} (long : scale ≠ 0 → 2 ^ 52 ≤ q) (carried : q ≤ 2 ^ 53) :
    (shiftToTargetExponent Format.binary64 q ((scale : Int) - 1074) .exact).1.mantissa =
        significandOfCode (q + scale * 2 ^ 52) ∧
      (shiftToTargetExponent Format.binary64 q ((scale : Int) - 1074) .exact).2 =
        (scaleOfCode (q + scale * 2 ^ 52) : Int) - 1074 := by
  rw [shift_eq, targetOf]
  rcases Nat.lt_or_eq_of_le carried with short | rfl
  · have log : q.log2 ≤ 52 := by
      by_cases zero : q = 0
      · simp [zero]
      · have := (Nat.log2_lt zero).mpr short
        omega
    have still : (max ((q.log2 : Int) + ((scale : Int) - 1074) - 52) (-1074) -
        ((scale : Int) - 1074)).toNat = 0 := by omega
    obtain ⟨significand, exponent⟩ := code_fields long short
    rw [still, significand, exponent]
    exact ⟨rfl, by simp⟩
  · have once : (max (((2 ^ 53 : Nat).log2 : Int) + ((scale : Int) - 1074) - 52) (-1074) -
        ((scale : Int) - 1074)).toNat = 1 := by
      rw [Nat.log2_two_pow]
      omega
    have same : 2 ^ 53 + scale * 2 ^ 52 = 2 ^ 52 + (scale + 1) * 2 ^ 52 := by omega
    obtain ⟨significand, exponent⟩ := @code_fields (2 ^ 52) (scale + 1) (by omega) (by omega)
    rw [once, same, significand, exponent]
    refine ⟨rfl, ?_⟩
    push_cast
    omega

/-- A factor of both sides of a quotient does not matter. -/
theorem roundQuotient_scale (num den : Nat) {factor : Nat} (scaled : 0 < factor) :
    roundQuotient (num * factor) (den * factor) = roundQuotient num den := by
  have less : 2 * (num % den * factor) < den * factor ↔ 2 * (num % den) < den := by
    rw [← Nat.mul_assoc, Nat.mul_lt_mul_right scaled]
  have same : 2 * (num % den * factor) = den * factor ↔ 2 * (num % den) = den := by
    rw [← Nat.mul_assoc, Nat.mul_left_inj scaled.ne']
  unfold roundQuotient
  rw [Nat.mul_mod_mul_right, Nat.mul_div_mul_right _ _ scaled]
  simp only [less, same]

/-- The model rounds a mantissa with a fraction below it as the quotient that they are. -/
theorem roundWithAccuracy_eq (negative : Bool) {e : Int} {a b : Nat} (positive : 0 < den)
    (below : rest < den) (units : e + 1074 = (a : Int) - b) (fits : e ≤ targetOf m e) :
    let num := (m * den + rest) * 2 ^ a
    let scale := scaleOfUnits (num / (den * 2 ^ b))
    roundWithAccuracy Format.binary64 (signOf negative) m e (accuracyOfFraction rest den) =
      unpacked negative (roundQuotient num (den * 2 ^ b * 2 ^ scale) + scale * 2 ^ 52) := by
  intro num scale
  have width : 0 < den * 2 ^ b := Nat.mul_pos positive (Nat.two_pow_pos b)
  have high : num < 2 ^ 53 * (den * 2 ^ b * 2 ^ scale) := num_lt_scale num width
  have upper : m < 2 ^ (m.log2 + 1) := Nat.lt_log2_self
  -- The scale that the quotient has in units is the one that the exponent is shifted to.
  have shifted : targetOf m e = (scale : Int) - 1074 ∧
      (scale ≠ 0 → 2 ^ 52 * (den * 2 ^ b * 2 ^ scale) ≤ num) := by
    have whole : m * den + rest < 2 ^ (m.log2 + 1) * den := by
      have := Nat.mul_le_mul_right den (Nat.succ_le_of_lt upper)
      rw [Nat.succ_mul] at this
      omega
    unfold targetOf at fits ⊢
    by_cases steep : 52 + b ≤ m.log2 + a
    · obtain ⟨s, sum⟩ := Nat.exists_eq_add_of_le steep
      have nonzero : m ≠ 0 := by
        rintro rfl
        rw [Nat.log2_zero] at sum fits
        omega
      have low : 2 ^ 52 * (den * 2 ^ b * 2 ^ s) ≤ num := by
        calc 2 ^ 52 * (den * 2 ^ b * 2 ^ s)
            = 2 ^ (52 + b + s) * den := by rw [Nat.pow_add, Nat.pow_add]; ring
          _ = 2 ^ m.log2 * den * 2 ^ a := by rw [← sum, Nat.pow_add]; ring
          _ ≤ num := Nat.mul_le_mul_right _ ((Nat.mul_le_mul_right den
              (Nat.log2_self_le nonzero)).trans (Nat.le_add_right _ _))
      have same : scale = s := by
        refine scaleOfUnits_ratio width low ?_
        calc num < 2 ^ (m.log2 + 1) * den * 2 ^ a :=
              Nat.mul_lt_mul_of_pos_right whole (Nat.two_pow_pos a)
          _ = 2 ^ (m.log2 + a) * 2 * den := by rw [Nat.pow_add, Nat.pow_succ]; ring
          _ = 2 ^ 53 * (den * 2 ^ b * 2 ^ s) := by rw [sum, Nat.pow_add, Nat.pow_add]; ring
      rw [same]
      exact ⟨by omega, fun _ => low⟩
    · have same : scale = 0 := by
        refine scaleOfUnits_small ((Nat.div_lt_iff_lt_mul width).mpr ?_)
        calc num < 2 ^ (m.log2 + 1) * den * 2 ^ a :=
              Nat.mul_lt_mul_of_pos_right whole (Nat.two_pow_pos a)
          _ = 2 ^ (m.log2 + 1 + a) * den := by rw [Nat.pow_add]; ring
          _ ≤ 2 ^ (53 + b) * den :=
              Nat.mul_le_mul_right den (Nat.pow_le_pow_right (by decide) (by omega))
          _ = 2 ^ 53 * (den * 2 ^ b) := by rw [Nat.pow_add]; ring
      rw [same]
      exact ⟨by omega, fun steep => absurd rfl steep⟩
  obtain ⟨target, low⟩ := shifted
  have long : scale ≠ 0 → 2 ^ 52 ≤ roundQuotient num (den * 2 ^ b * 2 ^ scale) := fun steep =>
    le_roundQuotient (Nat.mul_pos width (Nat.two_pow_pos scale)) (low steep)
  have carried : roundQuotient num (den * 2 ^ b * 2 ^ scale) ≤ 2 ^ 53 :=
    roundQuotient_le (Nat.mul_pos width (Nat.two_pow_pos scale)) (by omega)
  have rounded : (ExtendedMantissa.ofMantissaAndAccuracy m (accuracyOfFraction rest den) >>>
      (targetOf m e - e).toNat).roundedMantissa = roundQuotient num (den * 2 ^ b * 2 ^ scale) := by
    have stands := (@stands_ofFraction den m rest positive below).shiftRight positive
      (targetOf m e - e).toNat
    rw [stands.roundedMantissa (Nat.mul_pos positive (Nat.two_pow_pos _)),
      ← roundQuotient_scale _ _ (Nat.two_pow_pos a)]
    have exponents : (targetOf m e - e).toNat + a = b + scale := by omega
    rw [Nat.mul_assoc, Nat.mul_assoc, ← Nat.pow_add, ← Nat.pow_add, exponents]
  have exponent : e + ((targetOf m e - e).toNat : Int) = (scale : Int) - 1074 := by omega
  obtain ⟨mantissa, last⟩ := shift_carried long carried
  unfold roundWithAccuracy unpacked
  simp only [shift_eq m e, rounded, exponent, mantissa, last]
  split
  · rename_i zero
    rw [dif_neg (by omega)]
  · rename_i nonzero
    rw [dif_pos (by omega)]

theorem toBits_ofModel_pack (u : UnpackedFloat) :
    (Float.ofModel (Float.Model.pack u)).toBits.toNat =
      (UnpackedFloat.pack Format.binary64 u).toNat :=
  rfl

/-- A code at infinity or past it is packed as infinity. -/
theorem ofModel_unpacked (negative : Bool) (code : Nat) :
    Float.ofModel (Float.Model.pack (unpacked negative code)) =
      ofCode negative (min code infinityCode) := by
  apply toBits_injective
  apply UInt64.toNat_inj.mp
  rw [toBits_ofModel_pack, toBits_ofCode negative (Nat.min_le_right _ _)]
  rcases Nat.lt_or_ge code infinityCode with finite | infinite
  · rw [pack_eq negative finite, Nat.min_eq_left finite.le]
  · have limit := infinityCode_eq
    have scale := scaleOfCode_eq code
    have sign := signOf_toNat negative
    have bit := signBit_eq
    have biased : ((scaleOfCode code : Int) - 1074 + (Format.binary64.exponentBias : Nat) +
        (52 : Nat)).toNat = scaleOfCode code + 1 := by
      simp only [Format.exponentBias, Nat.add_one_sub_one, Nat.reducePow, Nat.cast_ofNat]
      omega
    rw [unpacked, dif_pos (significandOfCode_pos.mpr (by omega)), UnpackedFloat.pack]
    simp only [biased]
    rw [if_pos (by simp; omega), UnpackedFloat.packedInfinity, packComponents_toNat, sign,
      Nat.min_eq_right infinite]
    cases negative <;> simp <;> omega

/-- What the model rounds is the nearest double. -/
theorem rounded_eq (negative : Bool) {e : Int} {a b : Nat} (positive : 0 < den)
    (below : rest < den) (units : e + 1074 = (a : Int) - b) (fits : e ≤ targetOf m e) :
    Float.ofModel (Float.Model.pack (roundWithAccuracy Format.binary64 (signOf negative) m e
        (accuracyOfFraction rest den))) =
      nearest negative ((m * den + rest) * 2 ^ a) (den * 2 ^ b) := by
  rw [roundWithAccuracy_eq negative positive below units fits, ofModel_unpacked, nearest,
    codeOfRatio_eq]

theorem rounded_exact (negative : Bool) {e : Int} {a b : Nat} (units : e + 1074 = (a : Int) - b)
    (fits : e ≤ targetOf m e) :
    Float.ofModel (Float.Model.pack (roundWithAccuracy Format.binary64 (signOf negative) m e
      .exact)) = nearest negative (m * 2 ^ a) (2 ^ b) := by
  have rounded := @rounded_eq 1 m 0 negative e a b Nat.one_pos Nat.one_pos units fits
  rwa [Nat.mul_one, Nat.add_zero, Nat.one_mul] at rounded

theorem fits_of_long (long : 2 ^ 52 ≤ m) (e : Int) : e ≤ targetOf m e := by
  have log := (Nat.le_log2 (by omega)).mpr long
  unfold targetOf
  omega

theorem fits_of_low {e : Int} (low : e ≤ -1074) (m : Nat) : e ≤ targetOf m e :=
  low.trans (le_max_right _ _)

theorem unitsOfCode_eq_zero {code : Nat} (zero : ¬ 0 < significandOfCode code) :
    unitsOfCode code = 0 := by
  rw [unitsOfCode_eq, Nat.eq_zero_of_not_pos zero, Nat.zero_mul]

theorem pack_zero (negative : Bool) {num : Nat} (zero : num = 0) (positive : 0 < den) :
    Float.ofModel (Float.Model.pack (.zero (signOf negative))) = nearest negative num den := by
  rw [← unpacked_zero, ofModel_unpacked, nearest, codeOfRatio_zero (by omega)]
  rfl

variable {x y : Float} {s t : Bool} {u v : Nat}

theorem signOf_mul (s t : Bool) : signOf s * signOf t = signOf (s ^^ t) := by
  cases s <;> cases t <;> rfl

theorem mul_fits {p q i j : Nat} (positiveP : 0 < p) (positiveQ : 0 < q)
    (longP : 0 < i → 2 ^ 52 ≤ p) (longQ : 0 < j → 2 ^ 52 ≤ q) :
    ((i : Int) - 1074) + ((j : Int) - 1074) ≤
      targetOf (p * q) (((i : Int) - 1074) + ((j : Int) - 1074)) := by
  by_cases flat : i = 0 ∧ j = 0
  · exact fits_of_low (by omega) _
  · refine fits_of_long ?_ _
    by_cases steep : 0 < i
    · exact (longP steep).trans (Nat.le_mul_of_pos_right p positiveQ)
    · exact (longQ (by omega)).trans (Nat.le_mul_of_pos_left q positiveP)

theorem mul_unpacked (s t : Bool) (a b : Nat) :
    Float.ofModel (Float.Model.pack (UnpackedFloat.mul Format.binary64 (unpacked s a)
      (unpacked t b))) = nearest (s ^^ t) (unitsOfCode a * unitsOfCode b) oneUnits := by
  unfold unpacked
  split
  · rename_i positiveA
    split
    · rename_i positiveB
      have fits := mul_fits positiveA positiveB (@le_significandOfCode a) (@le_significandOfCode b)
      have rounded := @rounded_exact _ (s ^^ t) _ (scaleOfCode a + scaleOfCode b) unitScale
        (by rw [unitScale]; push_cast; ring) fits
      rw [← oneUnits_eq] at rounded
      rw [UnpackedFloat.mul, signOf_mul, rounded, unitsOfCode_eq, unitsOfCode_eq, Nat.pow_add,
        mul_mul_mul_comm]
    · rename_i zeroB
      rw [UnpackedFloat.mul, signOf_mul]
      refine pack_zero _ ?_ oneUnits_pos
      rw [unitsOfCode_eq_zero zeroB, Nat.mul_zero]
  · rename_i zeroA
    have zero : unitsOfCode a * unitsOfCode b = 0 := by
      rw [unitsOfCode_eq_zero zeroA, Nat.zero_mul]
    split <;> rw [UnpackedFloat.mul, signOf_mul] <;> exact pack_zero _ zero oneUnits_pos

/-- A product of finite doubles is the exact product, rounded once. -/
theorem mul_eq (left : ofFloat x = .finite s u) (right : ofFloat y = .finite t v) :
    x * y = nearest (s ^^ t) (u * v) oneUnits := by
  obtain ⟨a, finiteA, rfl, rfl⟩ := eq_ofCode_of_ofFloat left
  obtain ⟨b, finiteB, rfl, rfl⟩ := eq_ofCode_of_ofFloat right
  change Float.ofModel (Float.Model.pack (UnpackedFloat.mul Format.binary64
    (ofCode s a).toModel.unpack (ofCode t b).toModel.unpack)) = _
  rw [unpack_toModel s finiteA, unpack_toModel t finiteB, mul_unpacked]

/-- Rounding a mantissa that is given in whole units, however short or long it is. -/
theorem round_eq (negative : Bool) (positive : 0 < m) (scale : Nat) :
    Float.ofModel (Float.Model.pack (UnpackedFloat.round Format.binary64 (signOf negative) m
      ((scale : Int) - 1074))) = nearest negative (m * 2 ^ scale) 1 := by
  unfold UnpackedFloat.round UnpackedFloat.decreaseExponent
  simp only [targetExponent_eq]
  have least : -1074 ≤ targetOf m ((scale : Int) - 1074) := le_max_right _ _
  obtain ⟨k, shift⟩ : ∃ k,
      ((scale : Int) - 1074 - targetOf m ((scale : Int) - 1074)).toNat = k := ⟨_, rfl⟩
  obtain ⟨rest, rfl⟩ : ∃ rest, scale = rest + k := Nat.exists_eq_add_of_le' (by omega)
  have log : (m * 2 ^ k).log2 = m.log2 + k := by
    refine (Nat.log2_eq_iff (Nat.mul_pos positive (Nat.two_pow_pos k)).ne').mpr ⟨?_, ?_⟩
    · rw [Nat.pow_add]
      exact Nat.mul_le_mul_right _ (Nat.log2_self_le positive.ne')
    · rw [Nat.add_right_comm, Nat.pow_add]
      exact Nat.mul_lt_mul_of_pos_right Nat.lt_log2_self (Nat.two_pow_pos k)
  have fits : ((rest + k : Nat) : Int) - 1074 - (k : Int) ≤
      targetOf (m * 2 ^ k) (((rest + k : Nat) : Int) - 1074 - (k : Int)) := by
    unfold targetOf at shift ⊢
    rw [log]
    omega
  rw [shift, Nat.shiftLeft_eq, rounded_exact (a := rest) (b := 0) negative (by omega) fits,
    Nat.mul_assoc, ← Nat.pow_add, Nat.add_comm k, Nat.pow_zero]

theorem normalize_eq (n : Int) (scale : Nat) :
    Float.ofModel (Float.Model.pack (UnpackedFloat.normalize Format.binary64 n
        ((scale : Int) - 1074) .positive)) =
      nearest (decide (n < 0)) (n.natAbs * 2 ^ scale) 1 := by
  unfold UnpackedFloat.normalize
  rcases lt_trichotomy n 0 with negative | rfl | positive
  · have rounded := round_eq true (m := (-n).toNat) (by omega) scale
    have magnitude : (-n).toNat = n.natAbs := by omega
    rw [compare_lt_iff_lt.mpr negative, decide_eq_true negative, ← magnitude]
    exact rounded
  · rw [compare_eq_iff_eq.mpr rfl]
    exact pack_zero false (Nat.zero_mul _) Nat.one_pos
  · have rounded := round_eq false (m := n.toNat) (by omega) scale
    have magnitude : n.toNat = n.natAbs := by omega
    rw [compare_gt_iff_gt.mpr positive, decide_eq_false (by omega), ← magnitude]
    exact rounded

theorem apply_signOf (s : Bool) (m : Nat) : (signOf s).apply m = signedUnits s m := by
  cases s <;> rfl

theorem signedUnits_mul (s : Bool) (m factor : Nat) :
    signedUnits s (m * factor) = signedUnits s m * factor := by
  cases s <;> simp [signedUnits]

theorem add_finite (s t : Bool) {p q i j : Nat} (positiveP : 0 < p) (positiveQ : 0 < q) :
    let sum := signedUnits s (p * 2 ^ i) + signedUnits t (q * 2 ^ j)
    Float.ofModel (Float.Model.pack (UnpackedFloat.add Format.binary64
      (.finite (signOf s) p ((i : Int) - 1074) positiveP)
      (.finite (signOf t) q ((j : Int) - 1074) positiveQ))) =
        nearest (decide (sum < 0)) sum.natAbs 1 := by
  intro sum
  obtain ⟨k, least⟩ : ∃ k, min i j = k := ⟨_, rfl⟩
  have least' : min ((i : Int) - 1074) ((j : Int) - 1074) = (k : Int) - 1074 := by omega
  have shiftI : ((i : Int) - 1074 - ((k : Int) - 1074)).toNat = i - k := by omega
  have shiftJ : ((j : Int) - 1074 - ((k : Int) - 1074)).toNat = j - k := by omega
  have aligned : sum =
      (signedUnits s (p * 2 ^ (i - k)) + signedUnits t (q * 2 ^ (j - k))) * (2 ^ k : Nat) := by
    have exponentI : i - k + k = i := by omega
    have exponentJ : j - k + k = j := by omega
    rw [Int.add_mul, ← signedUnits_mul, ← signedUnits_mul, Nat.mul_assoc, Nat.mul_assoc,
      ← Nat.pow_add, ← Nat.pow_add, exponentI, exponentJ]
  have sign : sum < 0 ↔
      signedUnits s (p * 2 ^ (i - k)) + signedUnits t (q * 2 ^ (j - k)) < 0 := by
    have positive : (0 : Int) < (2 ^ k : Nat) := by exact_mod_cast Nat.two_pow_pos k
    rw [aligned, ← not_le, mul_nonneg_iff_of_pos_right positive, not_le]
  simp only [UnpackedFloat.add, UnpackedFloat.decreaseExponent, least', shiftI, shiftJ,
    Nat.shiftLeft_eq, apply_signOf, normalize_eq, sign]
  rw [aligned, Int.natAbs_mul, Int.natAbs_natCast]

theorem unpacked_positive {code : Nat} (negative : Bool) (positive : 0 < significandOfCode code) :
    unpacked negative code = .finite (signOf negative) (significandOfCode code)
      ((scaleOfCode code : Int) - 1074) positive :=
  dif_pos positive

theorem unpacked_of_zero {code : Nat} (negative : Bool) (zero : ¬ 0 < significandOfCode code) :
    unpacked negative code = .zero (signOf negative) :=
  dif_neg zero

theorem signedUnits_neg_iff (negative : Bool) {code : Nat} (positive : 0 < significandOfCode code) :
    (signedUnits negative (unitsOfCode code) < 0 ↔ negative = true) ∧
      signedUnits negative (unitsOfCode code) ≠ 0 := by
  have units := unitsOfCode_pos.mpr (significandOfCode_pos.mp positive)
  cases negative <;> simp [signedUnits] <;> omega

theorem signedUnits_zero (negative : Bool) : signedUnits negative 0 = 0 := by
  cases negative <;> rfl

theorem natAbs_signedUnits (negative : Bool) (units : Nat) :
    (signedUnits negative units).natAbs = units := by
  cases negative <;> simp [signedUnits]

/-- What is not zero is the nearest double to itself. -/
theorem ofModel_nonzero {negative : Bool} {code : Nat} (finite : code < infinityCode)
    (positive : 0 < significandOfCode code) :
    Float.ofModel (Float.Model.pack (unpacked negative code)) =
      nearest (decide (signedUnits negative (unitsOfCode code) < 0))
        (signedUnits negative (unitsOfCode code)).natAbs 1 := by
  have sign := (signedUnits_neg_iff negative positive).1
  rw [ofModel_unpacked, Nat.min_eq_left finite.le, ← nearest_units negative finite,
    natAbs_signedUnits]
  simp only [sign, Bool.decide_eq_true]

/-- A sum of finite doubles is the exact sum, rounded once. A sum of zero is negative only if both
parts are. -/
theorem add_eq (left : ofFloat x = .finite s u) (right : ofFloat y = .finite t v) :
    let sum := signedUnits s u + signedUnits t v
    x + y = nearest (if sum = 0 then s && t else decide (sum < 0)) sum.natAbs 1 := by
  obtain ⟨a, finiteA, rfl, rfl⟩ := eq_ofCode_of_ofFloat left
  obtain ⟨b, finiteB, rfl, rfl⟩ := eq_ofCode_of_ofFloat right
  intro sum
  change Float.ofModel (Float.Model.pack (UnpackedFloat.add Format.binary64
    (ofCode s a).toModel.unpack (ofCode t b).toModel.unpack)) = _
  rw [unpack_toModel s finiteA, unpack_toModel t finiteB]
  by_cases positiveA : 0 < significandOfCode a
  · by_cases positiveB : 0 < significandOfCode b
    · have both := add_finite s t (i := scaleOfCode a) (j := scaleOfCode b) positiveA positiveB
      rw [← unitsOfCode_eq, ← unitsOfCode_eq] at both
      rw [unpacked_positive s positiveA, unpacked_positive t positiveB, both]
      split
      · rename_i cancelled
        have sign : (s && t) = decide (sum < 0) := by
          have unitsA := unitsOfCode_pos.mpr (significandOfCode_pos.mp positiveA)
          cases s <;> cases t <;> simp [sum, signedUnits] at cancelled ⊢ <;> omega
        rw [sign]
      · rfl
    · have same : sum = signedUnits s (unitsOfCode a) := by
        simp only [sum, unitsOfCode_eq_zero positiveB, signedUnits_zero, Int.add_zero]
      have nonzero := (signedUnits_neg_iff s positiveA).2
      rw [same, if_neg nonzero, ← ofModel_nonzero finiteA positiveA, unpacked_positive s positiveA,
        unpacked_of_zero t positiveB]
      rfl
  · by_cases positiveB : 0 < significandOfCode b
    · have same : sum = signedUnits t (unitsOfCode b) := by
        simp only [sum, unitsOfCode_eq_zero positiveA, signedUnits_zero, Int.zero_add]
      have nonzero := (signedUnits_neg_iff t positiveB).2
      rw [same, if_neg nonzero, ← ofModel_nonzero finiteB positiveB, unpacked_positive t positiveB,
        unpacked_of_zero s positiveA]
      rfl
    · have same : sum = 0 := by
        simp only [sum, unitsOfCode_eq_zero positiveA, unitsOfCode_eq_zero positiveB,
          signedUnits_zero, Int.add_zero]
      rw [same, if_pos rfl, unpacked_of_zero s positiveA, unpacked_of_zero t positiveB]
      refine Eq.trans ?_ (pack_zero (s && t) rfl Nat.one_pos)
      cases s <;> cases t <;> rfl

/-- Subtracting is adding with the other sign. -/
theorem sub_unpacked (x : UnpackedFloat) (t : Bool) (code : Nat) :
    UnpackedFloat.sub Format.binary64 x (unpacked t code) =
      UnpackedFloat.add Format.binary64 x (unpacked (!t) code) := by
  have flipped : -signOf t = signOf (!t) := by cases t <;> rfl
  have apply (n : Int) : (signOf (!t)).apply n = -(signOf t).apply n := by
    cases t <;> simp [signOf, UnpackedFloat.Sign.apply]
  unfold unpacked
  split
  · cases x with
    | finite _ _ _ _ => simp only [UnpackedFloat.sub, UnpackedFloat.add, apply, sub_eq_add_neg]
    | zero _ => simp only [UnpackedFloat.sub, UnpackedFloat.add, flipped]
    | infinity _ | notANumber => rfl
  · cases x <;> simp only [UnpackedFloat.sub, UnpackedFloat.add, flipped]

theorem sub_eq (x : Float) (right : ofFloat y = .finite t v) :
    ∃ z, ofFloat z = .finite (!t) v ∧ x - y = x + z := by
  obtain ⟨code, finite, rfl, rfl⟩ := eq_ofCode_of_ofFloat right
  refine ⟨ofCode (!t) code, ofFloat_ofCode _ finite, ?_⟩
  change Float.ofModel (Float.Model.pack (UnpackedFloat.sub Format.binary64
    x.toModel.unpack (ofCode t code).toModel.unpack)) =
    Float.ofModel (Float.Model.pack (UnpackedFloat.add Format.binary64
      x.toModel.unpack (ofCode (!t) code).toModel.unpack))
  rw [unpack_toModel t finite, unpack_toModel (!t) finite, sub_unpacked]

theorem codeOfRatio_scale (num den : Nat) {factor : Nat} (scaled : 0 < factor) :
    codeOfRatio (num * factor) (den * factor) = codeOfRatio num den := by
  rw [codeOfRatio_eq, codeOfRatio_eq, Nat.mul_div_mul_right _ _ scaled, Nat.mul_right_comm,
    roundQuotient_scale _ _ scaled]

theorem signOf_div (s t : Bool) : signOf s / signOf t = signOf (s ^^ t) := by
  cases s <;> cases t <;> rfl

/-- The exponent that the model divides at, low enough for a quotient of full length. -/
theorem divCore_eq {p q : Nat} {e f : Int} (positiveP : 0 < p) (positiveQ : 0 < q) :
    ∃ k : Nat, UnpackedFloat.divCore Format.binary64 p e q f =
        (p * 2 ^ k / q, e - f - k, accuracyOfFraction (p * 2 ^ k % q) q) ∧
      e - f - k ≤ targetOf (p * 2 ^ k / q) (e - f - k) := by
  unfold UnpackedFloat.divCore
  have target : Format.binary64.targetExponent (totalExponent p e - totalExponent q f) =
      max ((p.log2 : Int) + e - q.log2 - f - 53) (-1074) := by
    simp only [Format.targetExponent, totalExponent, Format.mantissaBits, Format.minExponent]
    omega
  simp only [target, Nat.shiftLeft_eq]
  obtain ⟨k, shift⟩ : ∃ k,
      (e - f - min (e - f) (max ((p.log2 : Int) + e - q.log2 - f - 53) (-1074))).toNat = k :=
    ⟨_, rfl⟩
  have exponent : min (e - f) (max ((p.log2 : Int) + e - q.log2 - f - 53) (-1074)) = e - f - k := by
    omega
  refine ⟨k, ?_, ?_⟩
  · rw [shift, exponent]
  · by_cases low : e - f - k ≤ -1074
    · exact fits_of_low low _
    · refine fits_of_long ((Nat.le_div_iff_mul_le positiveQ).mpr ?_) _
      calc 2 ^ 52 * q ≤ 2 ^ 52 * 2 ^ (q.log2 + 1) := Nat.mul_le_mul_left _ Nat.lt_log2_self.le
        _ = 2 ^ (52 + (q.log2 + 1)) := (Nat.pow_add _ _ _).symm
        _ ≤ 2 ^ (p.log2 + k) := Nat.pow_le_pow_right (by decide) (by omega)
        _ = 2 ^ p.log2 * 2 ^ k := Nat.pow_add _ _ _
        _ ≤ p * 2 ^ k := Nat.mul_le_mul_right _ (Nat.log2_self_le positiveP.ne')

/-- A quotient of finite doubles is the exact quotient, rounded once. -/
theorem div_eq (left : ofFloat x = .finite s u) (right : ofFloat y = .finite t v)
    (nonzero : v ≠ 0) : x / y = nearest (s ^^ t) (u * oneUnits) v := by
  obtain ⟨a, finiteA, rfl, rfl⟩ := eq_ofCode_of_ofFloat left
  obtain ⟨b, finiteB, rfl, rfl⟩ := eq_ofCode_of_ofFloat right
  change Float.ofModel (Float.Model.pack (UnpackedFloat.div Format.binary64
    (ofCode s a).toModel.unpack (ofCode t b).toModel.unpack)) = _
  have positiveB : 0 < significandOfCode b := by
    by_contra zero
    exact nonzero (unitsOfCode_eq_zero zero)
  rw [unpack_toModel s finiteA, unpack_toModel t finiteB, unpacked_positive t positiveB]
  by_cases positiveA : 0 < significandOfCode a
  · obtain ⟨k, core, fits⟩ := @divCore_eq _ _ ((scaleOfCode a : Int) - 1074)
      ((scaleOfCode b : Int) - 1074) positiveA positiveB
    have rounded := @rounded_eq _ _ _ (s ^^ t) _ (scaleOfCode a + unitScale) (scaleOfCode b + k)
      positiveB (Nat.mod_lt (significandOfCode a * 2 ^ k) positiveB)
      (by rw [unitScale]; push_cast; ring) fits
    rw [unpacked_positive s positiveA]
    simp only [UnpackedFloat.div, core, signOf_div]
    have num : significandOfCode a * 2 ^ k * 2 ^ (scaleOfCode a + unitScale) =
        unitsOfCode a * oneUnits * 2 ^ k := by
      rw [unitsOfCode_eq, oneUnits_eq, Nat.pow_add]
      ring
    have den : significandOfCode b * 2 ^ (scaleOfCode b + k) = unitsOfCode b * 2 ^ k := by
      rw [unitsOfCode_eq, Nat.pow_add, Nat.mul_assoc]
    rw [rounded, Nat.div_add_mod', num, den, nearest, codeOfRatio_scale _ _ (Nat.two_pow_pos k),
      nearest]
  · rw [unpacked_of_zero s positiveA]
    simp only [UnpackedFloat.div, signOf_div]
    refine pack_zero _ ?_ (Nat.pos_of_ne_zero nonzero)
    rw [unitsOfCode_eq_zero positiveA, Nat.zero_mul]

/-! What is no number stays none. -/

theorem unpack_nan : nanValue.toModel.unpack = .notANumber := by rfl

theorem nan_mul (y : Float) : nanValue * y = nanValue := by
  change Float.ofModel (Float.Model.pack (UnpackedFloat.mul Format.binary64
    nanValue.toModel.unpack y.toModel.unpack)) = _
  rw [unpack_nan]
  rfl

theorem nan_div (y : Float) : nanValue / y = nanValue := by
  change Float.ofModel (Float.Model.pack (UnpackedFloat.div Format.binary64
    nanValue.toModel.unpack y.toModel.unpack)) = _
  rw [unpack_nan]
  rfl

theorem add_nan (x : Float) : x + nanValue = nanValue := by
  change Float.ofModel (Float.Model.pack (UnpackedFloat.add Format.binary64
    x.toModel.unpack nanValue.toModel.unpack)) = _
  rw [unpack_nan]
  cases x.toModel.unpack <;> rfl

end Toolpath.Binary64
