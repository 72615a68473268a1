import Mathlib
import Toolpath.Numeric.Double

/-! Codes and bits of doubles. A finite double is a sign and a code below that of infinity, and
going through the float model loses neither: `ofCode` and the reading by `ofFloat` are inverse to
each other. -/
namespace Toolpath.Binary64
open Float.Model (Format UnpackedFloat)
open Float.Model.UnpackedFloat (Sign packComponents unpackMantissa unpackExponent unpackSign)

theorem infinityCode_eq : infinityCode = 2047 * 2 ^ 52 := rfl

theorem signBit_eq : signBit = 2 ^ 63 := rfl

theorem scaleOfCode_eq (code : Nat) : scaleOfCode code = code / 2 ^ 52 - 1 := by
  rw [scaleOfCode, Nat.shiftRight_eq_div_pow]

theorem significandOfCode_eq (code : Nat) :
    significandOfCode code = code - scaleOfCode code * 2 ^ 52 := by
  have shifted := Nat.shiftLeft_eq (scaleOfCode code) 52
  unfold significandOfCode
  omega

theorem significandOfCode_pos {code : Nat} : 0 < significandOfCode code ↔ 0 < code := by
  rw [significandOfCode_eq, scaleOfCode_eq]
  omega

theorem code_eq (code : Nat) : code = significandOfCode code + scaleOfCode code * 2 ^ 52 := by
  rw [significandOfCode_eq, scaleOfCode_eq]
  omega

/-! The three fields of 64 bits, as naturals. -/

theorem unpackMantissa_toNat (b : BitVec 64) :
    (@unpackMantissa Format.binary64 b).toNat = b.toNat % 2 ^ 52 := by
  simp [unpackMantissa, BitVec.extractLsb]

theorem unpackExponent_toNat (b : BitVec 64) :
    (@unpackExponent Format.binary64 b).toNat = b.toNat / 2 ^ 52 % 2 ^ 11 := by
  simp [unpackExponent, BitVec.extractLsb, Nat.shiftRight_eq_div_pow]

theorem unpackSign_toNat (b : BitVec 64) :
    (@unpackSign Format.binary64 b).toNat = b.toNat / 2 ^ 63 := by
  have := b.isLt
  simp [unpackSign, BitVec.extractLsb, Nat.shiftRight_eq_div_pow]
  omega

theorem packComponents_toNat (s : Sign) (e : BitVec 11) (m : BitVec 52) :
    (packComponents Format.binary64 s e m).toNat =
      s.toBitVec.toNat * 2 ^ 63 + e.toNat * 2 ^ 52 + m.toNat := by
  have exponentBound := e.isLt
  have mantissaBound := m.isLt
  simp only [packComponents, BitVec.toNat_append]
  rw [← Nat.shiftLeft_add_eq_or_of_lt exponentBound, ← Nat.shiftLeft_add_eq_or_of_lt mantissaBound]
  simp only [Nat.shiftLeft_eq]
  omega

def signOf (negative : Bool) : Sign := if negative then .negative else .positive

theorem signOf_toNat (negative : Bool) :
    (signOf negative).toBitVec.toNat = if negative then 1 else 0 := by
  cases negative <;> rfl

theorem ofBitVec_unpackSign (b : BitVec 64) :
    Sign.ofBitVec (@unpackSign Format.binary64 b) = signOf (decide (signBit ≤ b.toNat)) := by
  have bound := b.isLt
  have whole := unpackSign_toNat b
  have := signBit_eq
  unfold Sign.ofBitVec signOf
  simp only [← BitVec.toNat_inj, whole, decide_eq_true_eq]
  by_cases h : signBit ≤ b.toNat
  · rw [if_pos h, if_neg (by simp; omega)]
  · rw [if_neg h, if_pos (by simp; omega)]

/-- What a finite code stands for in the words of the float model. -/
def unpacked (negative : Bool) (code : Nat) : UnpackedFloat :=
  if h : 0 < significandOfCode code then
    .finite (signOf negative) (significandOfCode code) ((scaleOfCode code : Int) - 1074) h
  else .zero (signOf negative)

theorem unpacked_zero (negative : Bool) : unpacked negative 0 = .zero (signOf negative) := by
  cases negative <;> rfl

theorem unpack_eq (b : BitVec 64) (finite : b.toNat % signBit < infinityCode) :
    UnpackedFloat.unpack Format.binary64 b =
      unpacked (decide (signBit ≤ b.toNat)) (b.toNat % signBit) := by
  have bound := b.isLt
  have mantissa := unpackMantissa_toNat b
  have exponent := unpackExponent_toNat b
  have implicit : (1#1 ++ @unpackMantissa Format.binary64 b).toNat = 2 ^ 52 + b.toNat % 2 ^ 52 := by
    rw [BitVec.toNat_append,
      ← Nat.shiftLeft_add_eq_or_of_lt (@unpackMantissa Format.binary64 b).isLt, mantissa]
    simp [Nat.shiftLeft_eq]
  have ones : @unpackExponent Format.binary64 b = -1#11 ↔ b.toNat / 2 ^ 52 % 2 ^ 11 = 2047 := by
    rw [← BitVec.toNat_inj, exponent]
    rfl
  have zeros : @unpackExponent Format.binary64 b = 0#11 ↔ b.toNat / 2 ^ 52 % 2 ^ 11 = 0 := by
    rw [← BitVec.toNat_inj, exponent]
    rfl
  have fraction : @unpackMantissa Format.binary64 b = 0#52 ↔ b.toNat % 2 ^ 52 = 0 := by
    rw [← BitVec.toNat_inj, mantissa]
    rfl
  have bias : (Format.binary64.exponentBias : Int) = 1023 := rfl
  have positive := @significandOfCode_pos (b.toNat % signBit)
  have significand := significandOfCode_eq (b.toNat % signBit)
  have scale := scaleOfCode_eq (b.toNat % signBit)
  have limit := infinityCode_eq
  unfold UnpackedFloat.unpack unpacked
  simp only [ofBitVec_unpackSign, ones, zeros, fraction, exponent, mantissa, implicit, bias]
  -- only the naturals matter from here on, and `omega` needs them as atoms
  generalize significandOfCode (b.toNat % signBit) = m at *
  generalize scaleOfCode (b.toNat % signBit) = s at *
  rw [signBit_eq] at *
  generalize b.toNat = n at *
  rw [if_neg (by omega)]
  by_cases small : n % 2 ^ 63 < 2 ^ 52
  · rw [if_pos (by omega)]
    by_cases zero : n % 2 ^ 52 = 0
    · rw [dif_pos zero, dif_neg (by omega)]
    · rw [dif_neg zero, dif_pos (by omega)]
      congr 1
      · omega
      · omega
  · rw [if_neg (by omega), dif_pos (by omega)]
    congr 1
    · omega
    · omega

theorem pack_eq (negative : Bool) {code : Nat} (finite : code < infinityCode) :
    (UnpackedFloat.pack Format.binary64 (unpacked negative code)).toNat =
      code + if negative then signBit else 0 := by
  have sign := signOf_toNat negative
  have bit := signBit_eq
  have limit := infinityCode_eq
  have positive := @significandOfCode_pos code
  have significand := significandOfCode_eq code
  have scale := scaleOfCode_eq code
  unfold unpacked
  generalize significandOfCode code = m at *
  generalize scaleOfCode code = s at *
  have biased : ((s : Int) - 1074 + (Format.binary64.exponentBias : Nat) + (52 : Nat)).toNat =
      s + 1 := by
    simp only [Format.exponentBias, Nat.add_one_sub_one, Nat.reducePow, Nat.cast_ofNat]
    omega
  split
  · rename_i nonzero
    rw [UnpackedFloat.pack]
    simp only [biased]
    rw [if_neg (by simp; omega)]
    have width : m.log2 + 1 = Format.binary64.mantissaBits ↔ 2 ^ 52 ≤ m := by
      rw [← Nat.le_log2 (by omega)]
      have := (@Nat.log2_lt m 53 (by omega)).mpr (by omega)
      simp only [Format.mantissaBits]
      omega
    split
    · rename_i normal
      rw [width] at normal
      rw [packComponents_toNat, sign, BitVec.toNat_ofNat, BitVec.toNat_ofNat]
      cases negative <;> simp <;> omega
    · rename_i subnormal
      rw [width] at subnormal
      rw [packComponents_toNat, sign, BitVec.toNat_ofNat]
      cases negative <;> simp <;> omega
  · rename_i zero
    rw [UnpackedFloat.pack, UnpackedFloat.packedZero, packComponents_toNat, sign]
    cases negative <;> simp <;> omega

theorem unpack_infinite (b : BitVec 64) (infinite : b.toNat % signBit = infinityCode) :
    UnpackedFloat.unpack Format.binary64 b = .infinity (signOf (decide (signBit ≤ b.toNat))) := by
  have bit := signBit_eq
  have limit := infinityCode_eq
  rw [bit] at infinite
  have ones : @unpackExponent Format.binary64 b = -1#11 := by
    rw [← BitVec.toNat_inj, unpackExponent_toNat]
    change b.toNat / 2 ^ 52 % 2 ^ 11 = 2047
    omega
  have fraction : @unpackMantissa Format.binary64 b = 0#52 := by
    rw [← BitVec.toNat_inj, unpackMantissa_toNat]
    change b.toNat % 2 ^ 52 = 0
    omega
  unfold UnpackedFloat.unpack
  simp only [ones, fraction, if_true, ofBitVec_unpackSign]

theorem unpack_notFinite (b : BitVec 64) (notFinite : infinityCode ≤ b.toNat % signBit) :
    UnpackedFloat.unpack Format.binary64 b = .notANumber ∨
      ∃ s, UnpackedFloat.unpack Format.binary64 b = .infinity s := by
  have bit := signBit_eq
  have limit := infinityCode_eq
  rw [bit] at notFinite
  have ones : @unpackExponent Format.binary64 b = -1#11 := by
    rw [← BitVec.toNat_inj, unpackExponent_toNat]
    change b.toNat / 2 ^ 52 % 2 ^ 11 = 2047
    omega
  unfold UnpackedFloat.unpack
  simp only [ones, if_true]
  split
  · exact .inr ⟨_, rfl⟩
  · exact .inl rfl

/-! From a sign and a code to a double and back. -/

theorem toBits_injective {x y : Float} (h : x.toBits = y.toBits) : x = y := by
  obtain ⟨⟨bits, valid⟩⟩ := x
  obtain ⟨⟨bits', valid'⟩⟩ := y
  cases (h : bits = bits')
  rfl

theorem toBits_ofBits (a : UInt64) : (Float.ofBits a).toBits.toNat =
    (UnpackedFloat.pack Format.binary64 (UnpackedFloat.unpack Format.binary64 a.toBitVec)).toNat :=
  rfl

theorem code_lt_signBit {code : Nat} (h : code ≤ infinityCode) : code < signBit := by
  have bit := signBit_eq
  have limit := infinityCode_eq
  omega

theorem bits_mod (negative : Bool) {code : Nat} (h : code < signBit) :
    (code + if negative then signBit else 0) % signBit = code := by
  cases negative
  · exact Nat.mod_eq_of_lt h
  · simpa using Nat.mod_eq_of_lt h

theorem bits_sign (negative : Bool) {code : Nat} (h : code < signBit) :
    decide (signBit ≤ code + if negative then signBit else 0) = negative := by
  cases negative <;> simp [h]

/-- The bits of a double that is given by sign and code. -/
theorem toBits_ofCode (negative : Bool) {code : Nat} (h : code ≤ infinityCode) :
    (ofCode negative code).toBits.toNat = code + if negative then signBit else 0 := by
  have small := code_lt_signBit h
  have bit := signBit_eq
  have whole : (UInt64.ofNat (code + if negative then signBit else 0)).toBitVec.toNat =
      code + if negative then signBit else 0 := by
    rw [UInt64.toNat_toBitVec, UInt64.toNat_ofNat']
    apply Nat.mod_eq_of_lt
    cases negative <;> simp <;> omega
  rw [ofCode, toBits_ofBits]
  rcases Nat.lt_or_eq_of_le h with finite | infinite
  · rw [unpack_eq _ (by rw [whole, bits_mod negative small]; exact finite), whole,
      bits_mod negative small, bits_sign negative small, pack_eq _ finite]
  · rw [unpack_infinite _ (by rw [whole, bits_mod negative small]; exact infinite), whole,
      bits_sign negative small, infinite]
    have limit := infinityCode_eq
    rw [UnpackedFloat.pack, UnpackedFloat.packedInfinity, packComponents_toNat, signOf_toNat]
    cases negative <;> simp <;> omega

theorem codeOfFloat_ofCode (negative : Bool) {code : Nat} (h : code ≤ infinityCode) :
    codeOfFloat (ofCode negative code) = code := by
  rw [codeOfFloat, toBits_ofCode negative h, bits_mod negative (code_lt_signBit h)]

theorem ofFloat_ofCode (negative : Bool) {code : Nat} (h : code < infinityCode) :
    ofFloat (ofCode negative code) = .finite negative (unitsOfCode code) := by
  rw [ofFloat, codeOfFloat_ofCode negative h.le, toBits_ofCode negative h.le]
  simp only [bits_sign negative (code_lt_signBit h.le), if_neg h.le.not_gt, if_neg h.ne]

theorem ofCode_codeOfFloat {x : Float} (h : codeOfFloat x ≤ infinityCode) :
    ofCode (decide (signBit ≤ x.toBits.toNat)) (codeOfFloat x) = x := by
  apply toBits_injective
  apply UInt64.toNat_inj.mp
  rw [toBits_ofCode _ h, codeOfFloat]
  have bound := x.toBits.toNat_lt
  rw [signBit_eq]
  by_cases negative : 2 ^ 63 ≤ x.toBits.toNat
  · simp only [negative, decide_true, if_true]
    omega
  · simp only [negative, decide_false, Bool.false_eq_true, if_false]
    omega

/-- A double that reads as finite is its sign and a code below that of infinity. -/
theorem eq_ofCode_of_ofFloat {x : Float} {negative : Bool} {units : Nat}
    (decoded : ofFloat x = .finite negative units) :
    ∃ code < infinityCode, x = ofCode negative code ∧ units = unitsOfCode code := by
  unfold ofFloat at decoded
  simp only at decoded
  split at decoded
  · cases decoded
  · split at decoded
    · cases decoded
    · rename_i notNan notInfinite
      have finite : codeOfFloat x < infinityCode := by omega
      simp only [Binary64.finite.injEq] at decoded
      refine ⟨codeOfFloat x, finite, ?_, decoded.2.symm⟩
      rw [← decoded.1, ofCode_codeOfFloat finite.le]

theorem isFinite_iff {x : Float} :
    isFinite x = true ↔ ∃ negative units, ofFloat x = .finite negative units := by
  unfold isFinite
  split <;> simp_all

theorem isFinite_zero : isFinite 0 = true := by
  decide

theorem infinityCode_le {x : Float} (notFinite : isFinite x = false) :
    infinityCode ≤ codeOfFloat x := by
  by_contra below
  rw [isFinite, ofFloat] at notFinite
  simp only [if_neg (show ¬ infinityCode < codeOfFloat x by omega),
    if_neg (show ¬ codeOfFloat x = infinityCode by omega)] at notFinite
  cases notFinite

theorem exists_ofCode {x : Float} (finite : isFinite x = true) :
    ∃ negative code, code < infinityCode ∧ x = ofCode negative code := by
  obtain ⟨negative, units, decoded⟩ := isFinite_iff.mp finite
  obtain ⟨code, below, rfl, _⟩ := eq_ofCode_of_ofFloat decoded
  exact ⟨negative, code, below, rfl⟩

theorem isFinite_ofCode (negative : Bool) {code : Nat} (h : code < infinityCode) :
    isFinite (ofCode negative code) = true :=
  isFinite_iff.mpr ⟨negative, unitsOfCode code, ofFloat_ofCode negative h⟩

theorem unpack_toModel (negative : Bool) {code : Nat} (h : code < infinityCode) :
    (ofCode negative code).toModel.unpack = unpacked negative code := by
  have small := code_lt_signBit h.le
  have bits : (ofCode negative code).toModel.toBits.toBitVec.toNat =
      code + if negative then signBit else 0 :=
    toBits_ofCode negative h.le
  rw [Float.Model.unpack, unpack_eq _ (by rw [bits, bits_mod negative small]; exact h), bits,
    bits_mod negative small, bits_sign negative small]

end Toolpath.Binary64
