import Mathlib
import Toolpath.Proofs.Decimal.ReadBack
import Toolpath.Proofs.Numeric.Arithmetic

/-! Literals: a sign, digits, a fraction and an exponent, of which only the digits have to be there. A
literal reads as the double nearest to what it says, and the shortest digits of a finite double are
such a literal, wherever the point is placed. -/
namespace Toolpath.Decimal
open Binary64

/-- An exponent in writing: a letter, a sign or none, and digits. -/
structure Mark where
  letter : Char
  sign : List Char
  digits : List Char

namespace Mark

def text (m : Mark) : List Char := m.letter :: (m.sign ++ m.digits)

def value (m : Mark) : Int := if m.sign = ['-'] then -(digitsValue m.digits : Int) else digitsValue m.digits

structure Legal (m : Mark) : Prop where
  letter : m.letter = 'e' ∨ m.letter = 'E'
  sign : m.sign = [] ∨ m.sign = ['+'] ∨ m.sign = ['-']
  filled : m.digits ≠ []
  digits : ∀ c ∈ m.digits, c.isDigit = true

end Mark

/-- A number in writing; no fraction and no exponent make an integer of it. -/
structure Literal where
  negative : Bool
  whole : List Char
  part : List Char
  mark : Option Mark

namespace Literal

def fraction (l : Literal) : List Char := if l.part = [] then [] else '.' :: l.part

def exponent (l : Literal) : List Char := (l.mark.map Mark.text).getD []

def unsigned (l : Literal) : List Char := l.whole ++ (l.fraction ++ l.exponent)

def text (l : Literal) : List Char := signed l.negative l.unsigned

def integral (l : Literal) : Prop := l.part = [] ∧ l.mark = none

/-- The power of ten that its digits are taken times. -/
def scale (l : Literal) : Int := (l.mark.map Mark.value).getD 0 - l.part.length

def value (l : Literal) : Float := toFloat l.negative (digitsValue (l.whole ++ l.part)) l.scale

/-- No zero stands in front of other digits. -/
structure Legal (l : Literal) : Prop where
  filled : l.whole ≠ []
  leading : l.whole = ['0'] ∨ l.whole.head? ≠ some '0'
  whole : ∀ c ∈ l.whole, c.isDigit = true
  part : ∀ c ∈ l.part, c.isDigit = true
  mark : ∀ m ∈ l.mark, m.Legal

end Literal

/-! Reading. -/

theorem splitSign_digits {cs : List Char} (digits : ∀ c ∈ cs, c.isDigit = true) :
    splitSign cs = (false, cs) := by
  cases cs with
  | nil => rfl
  | cons c rest => exact splitSign_signed false (digits c List.mem_cons_self) rest

theorem Mark.Legal.exponent?_text {m : Mark} (legal : m.Legal) : exponent? m.text = some m.value := by
  have split : splitSign (m.sign ++ m.digits) = (decide (m.sign = ['-']), m.digits) := by
    rcases legal.sign with sign | sign | sign <;> rw [sign]
    · exact splitSign_digits legal.digits
    · rfl
    · rfl
  have all : m.digits.all Char.isDigit = true := List.all_eq_true.mpr legal.digits
  simp only [Mark.text, exponent?, if_pos legal.letter, split, legal.filled, all, ne_eq, not_false_eq_true,
    and_self, if_true, Mark.value, decide_eq_true_eq]

/-- What a literal consists of. -/
def isLiteral (c : Char) : Bool := c.isDigit || c == '.' || c == '-' || c == '+' || c == 'e' || c == 'E'

theorem isLiteral_of_isDigit {c : Char} (digit : c.isDigit = true) : isLiteral c = true := by
  simp [isLiteral, digit]

theorem isLiteral_bounds {c : Char} (literal : isLiteral c = true) :
    0x20 < c.toNat ∧ c.toNat < 128 ∧ c ≠ '_' := by
  have cases : c.isDigit = true ∨ c = '.' ∨ c = '-' ∨ c = '+' ∨ c = 'e' ∨ c = 'E' := by
    simpa [isLiteral, or_assoc] using literal
  rcases cases with digit | rfl | rfl | rfl | rfl | rfl
  · have := bounds_of_isDigit digit
    exact ⟨by omega, by omega, ne_of_isDigit digit rfl⟩
  all_goals decide

namespace Literal
variable {l : Literal}

theorem isLiteral_of_mem (legal : l.Legal) : ∀ c ∈ l.text, isLiteral c = true := by
  have whole c (member : c ∈ l.whole) := isLiteral_of_isDigit (legal.whole c member)
  have fraction : ∀ c ∈ l.fraction, isLiteral c = true := by
    unfold Literal.fraction
    split
    · simp
    · exact List.forall_mem_cons.mpr ⟨rfl, fun c member => isLiteral_of_isDigit (legal.part c member)⟩
  have exponent : ∀ c ∈ l.exponent, isLiteral c = true := by
    unfold Literal.exponent
    cases shape : l.mark with
    | none => simp
    | some m =>
      obtain ⟨letter, sign, -, digits⟩ := legal.mark m shape
      refine List.forall_mem_cons.mpr ⟨?_, List.forall_mem_append.mpr ⟨?_, ?_⟩⟩
      · rcases letter with same | same <;> rw [same] <;> rfl
      · rcases sign with same | same | same <;> rw [same] <;> simp [isLiteral]
      · exact fun c member => isLiteral_of_isDigit (digits c member)
  have unsigned : ∀ c ∈ l.unsigned, isLiteral c = true :=
    List.forall_mem_append.mpr ⟨whole, List.forall_mem_append.mpr ⟨fraction, exponent⟩⟩
  unfold text signed
  split
  · exact List.forall_mem_cons.mpr ⟨rfl, unsigned⟩
  · exact unsigned

theorem unsigned_cons (legal : l.Legal) : ∃ c rest, l.unsigned = c :: rest ∧ c.isDigit = true := by
  obtain ⟨c, rest, shape⟩ := List.exists_cons_of_ne_nil legal.filled
  rw [unsigned, shape]
  exact ⟨c, _, rfl, legal.whole c (shape ▸ List.mem_cons_self)⟩

theorem text_of_positive (positive : l.negative = false) : l.text = l.unsigned := by
  rw [text, positive]
  rfl

theorem text_of_negative (negative : l.negative = true) : l.text = '-' :: l.unsigned := by
  rw [text, negative]
  rfl

theorem splitSign_text (legal : l.Legal) : splitSign l.text = (l.negative, l.unsigned) := by
  obtain ⟨c, rest, shape, digit⟩ := unsigned_cons legal
  rw [text, shape]
  exact splitSign_signed l.negative digit rest

section
variable {rest : List Char} (stops : ∀ c ∈ rest.head?, c.isDigit = false ∧ c ≠ '.')
include stops

/-- Neither a point nor the letter of an exponent is a digit. -/
theorem exponent_stops (legal : l.Legal) :
    ∀ c ∈ (l.exponent ++ rest).head?, c.isDigit = false ∧ c ≠ '.' := by
  unfold exponent
  cases shape : l.mark with
  | none => exact stops
  | some m =>
    rintro c ⟨⟩
    rcases (legal.mark m shape).letter with same | same <;> rw [same] <;> decide

theorem fraction_stops (legal : l.Legal) :
    ∀ c ∈ (l.fraction ++ (l.exponent ++ rest)).head?, c.isDigit = false := by
  unfold fraction
  split
  · exact fun c first => (exponent_stops stops legal c first).1
  · rintro c ⟨⟩
    rfl

end

theorem exponent?_exponent (legal : l.Legal) :
    exponent? l.exponent = some ((l.mark.map Mark.value).getD 0) := by
  unfold exponent
  cases shape : l.mark with
  | none => rfl
  | some m => exact (legal.mark m shape).exponent?_text

theorem unsigned?_unsigned (legal : l.Legal) : unsigned? l.negative l.unsigned = some l.value := by
  have points := @exponent_stops l [] (by simp) legal
  have digits := @fraction_stops l [] (by simp) legal
  rw [List.append_nil] at points digits
  have takeWhole := takeWhile_append_stop legal.whole digits
  have dropWhole := dropWhile_append_stop legal.whole digits
  have exponent := exponent?_exponent legal
  simp only [unsigned?, unsigned, takeWhole, dropWhole, legal.filled, false_and, if_false]
  rw [value, scale]
  generalize (l.mark.map Mark.value).getD 0 = e at *
  by_cases none : l.part = []
  · have fraction : l.fraction = [] := if_pos none
    rw [fraction, none, List.nil_append, List.append_nil]
    generalize l.exponent = rest at *
    cases rest with
    | nil => simp [exponent]
    | cons c rest =>
      have notPoint : c ≠ '.' := (points c rfl).2
      simp [notPoint, exponent]
  · have fraction : l.fraction = '.' :: l.part := if_neg none
    have stops c (first : c ∈ l.exponent.head?) := (points c first).1
    simp only [fraction, List.cons_append, takeWhile_append_stop legal.part stops,
      dropWhile_append_stop legal.part stops, exponent, Option.map_some]

/-- A literal reads as the double nearest to what it says. -/
theorem float?_text (legal : l.Legal) : float? l.text = some l.value := by
  have normal : normalForm l.text = some l.text :=
    normalForm_ascii fun c member => isLiteral_bounds (isLiteral_of_mem legal c member)
  obtain ⟨c, rest, shape, digit⟩ := unsigned_cons legal
  have notWord (word : String) (letter : Char) (letters : List Char)
      (spelt : word = String.ofList (letter :: letters)) (other : letter.isDigit = false) :
      String.ofList (l.unsigned.map Char.toLower) ≠ word := by
    rw [shape, spelt]
    exact ofList_ne_word rest digit other
  have notInf := notWord "inf" 'i' ['n', 'f'] rfl rfl
  have notInfinity := notWord "infinity" 'i' ['n', 'f', 'i', 'n', 'i', 't', 'y'] rfl rfl
  have notNan := notWord "nan" 'n' ['a', 'n'] rfl rfl
  rw [float?, normal]
  simp only [Option.bind_some, splitSign_text legal]
  rw [if_neg (not_or.mpr ⟨notInf, notInfinity⟩), if_neg notNan]
  exact unsigned?_unsigned legal

/-- The integer that a literal without a fraction and an exponent is. -/
def whole? (l : Literal) : Int := if l.negative then -(digitsValue l.whole : Int) else digitsValue l.whole

theorem int?_text (legal : l.Legal) (integral : l.integral) :
    int? l.text = if l.whole.length ≤ maxIntegerDigits then some l.whole? else none := by
  have normal : normalForm l.text = some l.text :=
    normalForm_ascii fun c member => isLiteral_bounds (isLiteral_of_mem legal c member)
  have plain : l.unsigned = l.whole := by
    rw [unsigned, fraction, if_pos integral.1, exponent, integral.2]
    simp
  have digits : l.whole.all Char.isDigit = true := List.all_eq_true.mpr legal.whole
  rw [int?, normal]
  simp only [Option.bind_some, splitSign_text legal, plain, legal.filled, digits, ne_eq, not_false_eq_true,
    true_and]
  rfl

end Literal

/-! Writing. -/

theorem codeOfRatio_congr {a b c d : Nat} (filledB : 0 < b) (filledD : 0 < d) (same : a * d = c * b) :
    codeOfRatio a b = codeOfRatio c d := by
  rw [← codeOfRatio_scale a b filledD, same, Nat.mul_comm b, codeOfRatio_scale c d filledB]

/-- Zeros behind the digits move the point. -/
theorem toFloat_shift (negative : Bool) (digits zeros : Nat) (exponent : Int) :
    toFloat negative (digits * 10 ^ zeros) (exponent - zeros) = toFloat negative digits exponent := by
  have powers : zeros + (exponent - zeros).toNat + (-exponent).toNat =
      exponent.toNat + (-(exponent - zeros)).toNat := by omega
  have same : digits * 10 ^ zeros * 10 ^ (exponent - zeros).toNat * oneUnits * 10 ^ (-exponent).toNat =
      digits * 10 ^ exponent.toNat * oneUnits * 10 ^ (-(exponent - zeros)).toNat := by
    calc _ = digits * 10 ^ (zeros + (exponent - zeros).toNat + (-exponent).toNat) * oneUnits := by
          rw [Nat.pow_add, Nat.pow_add]
          ring
      _ = _ := by
          rw [powers, Nat.pow_add]
          ring
  rw [toFloat_eq, toFloat_eq, nearest, nearest,
    codeOfRatio_congr (Nat.pow_pos (by decide)) (Nat.pow_pos (by decide)) same]

theorem toFloat_shortest (negative : Bool) {code : Nat} (positive : 0 < code) (finite : code < infinityCode) :
    toFloat negative (shortest (unitsOfCode code)).digits (shortest (unitsOfCode code)).exponent =
      ofCode negative code := by
  rw [toFloat_eq, nearest, mul_assoc,
    codeOfRatio_near finite (Nat.pow_pos (by decide)) (shortest_near positive)]

theorem digitsValue_padded (width n : Nat) : digitsValue (padded width n) = n := by
  rw [digitsValue, padded, digitsFrom_eq, Nat.ofDigitChars_append, Nat.ofDigitChars_replicate_zero,
    Nat.mul_zero]
  exact digitsValue_natural n

theorem natural_leading (n : Nat) : natural n = ['0'] ∨ (natural n).head? ≠ some '0' := by
  induction n using Nat.strongRecOn with
  | ind n ih =>
    rcases Nat.lt_or_ge n 10 with small | large
    · rw [natural, Nat.toDigits_of_lt_base small]
      interval_cases n <;> simp [Nat.digitChar]
    · have front : natural (n / 10) ≠ ['0'] := by
        intro zero
        have value := digitsValue_natural (n / 10)
        rw [zero] at value
        have : n / 10 = 0 := value.symm
        omega
      right
      rw [natural, Nat.toDigits_of_base_le (by decide) large, ← natural]
      obtain ⟨c, rest, shape⟩ := List.exists_cons_of_ne_nil (natural_ne_nil (n / 10))
      have other := (ih (n / 10) (by omega)).resolve_left front
      rw [shape] at other ⊢
      exact other

/-- A number with places behind the point. -/
theorem exists_pointed (negative : Bool) {places : Nat} (positive : 0 < places) (n : Nat) : ∃ l : Literal,
    l.Legal ∧ ¬ l.integral ∧ l.text = signed negative (withPlaces places n) ∧
      l.value = toFloat negative n (-places) := by
  have length := length_placesPart places n
  have part : placesPart places n ≠ [] := by
    rw [← List.length_pos_iff, length]
    exact positive
  refine ⟨⟨negative, placesWhole places n, placesPart places n, none⟩, ⟨natural_ne_nil _, natural_leading _,
    fun c member => isDigit_of_mem_natural member, fun c member => isDigit_of_mem_placesPart member, by simp⟩,
    fun integral => part integral.1, ?_, ?_⟩
  · rw [withPlaces_eq, if_neg positive.ne', Literal.text, Literal.unsigned, Literal.fraction, if_neg part,
      Literal.exponent]
    simp
  · rw [Literal.value, Literal.scale, digitsValue_places, length]
    simp

/-- A number with one digit before the point, and an exponent. -/
theorem exists_scientific (negative : Bool) (s : Scaled) : ∃ l : Literal,
    l.Legal ∧ ¬ l.integral ∧ l.text = signed negative (withExponent s) ∧
      l.value = toFloat negative s.digits s.exponent := by
  obtain ⟨first, rest, shape⟩ := List.exists_cons_of_ne_nil (natural_ne_nil s.digits)
  have digits : ∀ c ∈ first :: rest, c.isDigit = true := fun c member =>
    isDigit_of_mem_natural (shape ▸ member)
  have leading : s.leading = s.exponent + rest.length := by
    rw [Scaled.leading, shape, List.length_cons]
    push_cast
    ring
  let mark : Mark := ⟨'e', [if s.leading < 0 then '-' else '+'], padded 2 s.leading.natAbs⟩
  have marked : mark.Legal := by
    refine ⟨.inl rfl, ?_, ?_, fun c member => isDigit_of_mem_padded member⟩
    · by_cases below : s.leading < 0
      · exact .inr (.inr (by simp [mark, below]))
      · exact .inr (.inl (by simp [mark, below]))
    · exact List.append_ne_nil_of_right_ne_nil _ (natural_ne_nil _)
  have value : mark.value = s.leading := by
    by_cases below : s.leading < 0
    · simp only [Mark.value, mark, digitsValue_padded, if_pos below, if_true]
      omega
    · simp only [Mark.value, mark, digitsValue_padded, if_neg below, List.cons.injEq, and_true]
      rw [if_neg (by decide)]
      omega
  refine ⟨⟨negative, [first], rest, some mark⟩, ⟨List.cons_ne_nil _ _, ?_, ?_, ?_, ?_⟩, ?_, ?_, ?_⟩
  · by_cases zero : first = '0' <;> simp [zero]
  · exact List.forall_mem_singleton.mpr (digits first List.mem_cons_self)
  · exact fun c member => digits c (List.mem_cons_of_mem _ member)
  · rintro _ ⟨⟩
    exact marked
  · rintro ⟨-, ⟨⟩⟩
  · have exponent : exponentText s.leading = mark.text := rfl
    rw [withExponent, shape, Literal.text]
    cases rest with
    | nil => simp [Literal.unsigned, Literal.fraction, Literal.exponent, exponent]
    | cons second rest => simp [Literal.unsigned, Literal.fraction, Literal.exponent, exponent]
  · have whole : digitsValue ([first] ++ rest) = s.digits := by
      rw [List.singleton_append, ← shape, digitsValue_natural]
    rw [Literal.value, whole, Literal.scale]
    simp [value, leading]

/-- The shortest digits of a finite double are a literal that reads as it. -/
theorem exists_exact (negative : Bool) {code : Nat} (finite : code < infinityCode) : ∃ l : Literal,
    l.Legal ∧ ¬ l.integral ∧ l.text = signed negative (exactMagnitude (unitsOfCode code)) ∧
      l.value = ofCode negative code := by
  rcases Nat.eq_zero_or_pos code with rfl | positive
  · obtain ⟨l, legal, fractional, text, value⟩ := exists_pointed negative Nat.one_pos 0
    refine ⟨l, legal, fractional, text.trans (congrArg (signed negative) (by decide)), value.trans ?_⟩
    rw [toFloat, if_pos rfl, nearest, codeOfRatio_zero (by decide)]
  · have nonzero : unitsOfCode code ≠ 0 := (unitsOfCode_pos.mpr positive).ne'
    have reads := toFloat_shortest negative positive finite
    rw [exactMagnitude, if_neg nonzero]
    generalize shortest (unitsOfCode code) = s at reads ⊢
    rw [← reads]
    split
    · rename_i near
      by_cases whole : 0 ≤ s.exponent
      · obtain ⟨l, legal, fractional, text, value⟩ :=
          exists_pointed negative Nat.one_pos (s.digits * 10 ^ (s.exponent.toNat + 1))
        refine ⟨l, legal, fractional, text.trans (congrArg (signed negative) ?_), value.trans ?_⟩
        · have quotient : s.digits * 10 ^ (s.exponent.toNat + 1) / 10 ^ 1 = s.digits * 10 ^ s.exponent.toNat := by
            rw [Nat.pow_succ, ← Nat.mul_assoc, Nat.pow_one, Nat.mul_div_cancel _ (by decide)]
          have rest : s.digits * 10 ^ (s.exponent.toNat + 1) % 10 ^ 1 = 0 := by
            rw [Nat.pow_succ, ← Nat.mul_assoc, Nat.pow_one, Nat.mul_mod_left]
          rw [if_pos whole, positional_eq, show (-s.exponent).toNat = 0 by omega, withPlaces_eq, withPlaces_eq,
            placesWhole, placesPart, placesWhole, quotient, rest]
          simp
          decide
        · have power : -((1 : Nat) : Int) = s.exponent - ((s.exponent.toNat + 1 : Nat) : Int) := by omega
          rw [power, toFloat_shift]
      · obtain ⟨l, legal, fractional, text, value⟩ :=
          @exists_pointed negative (-s.exponent).toNat (by omega) s.digits
        refine ⟨l, legal, fractional, text.trans (congrArg (signed negative) ?_), value.trans ?_⟩
        · rw [if_neg whole, positional_eq, show s.exponent.toNat = 0 by omega, Nat.pow_zero, Nat.mul_one]
        · rw [show -(((-s.exponent).toNat : Nat) : Int) = s.exponent by omega]
    · exact exists_scientific negative s

end Toolpath.Decimal
