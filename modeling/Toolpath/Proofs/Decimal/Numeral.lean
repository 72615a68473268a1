import Mathlib
import Toolpath.Decimal.Notation
import Toolpath.Decimal.Reading

/-! Numbers as they are written: a sign, digits, and a point before the last so many of them. Such a
number reads as the double nearest to its digits over the power of ten. -/
namespace Toolpath.Decimal

/-- `digits / 10 ^ places`, with a sign if it is negative. -/
structure Numeral where
  negative : Bool
  places : Nat
  digits : Nat

namespace Numeral

def text (n : Numeral) : List Char := signed n.negative (withPlaces n.places n.digits)

def value (n : Numeral) : Float := toFloat n.negative n.digits (-n.places)

end Numeral

theorem isDigit_of_mem_natural {n : Nat} {c : Char} (h : c ∈ natural n) : c.isDigit = true :=
  Nat.isDigit_of_mem_toDigits (by decide) (by decide) h

theorem isDigit_of_mem_padded {width n : Nat} {c : Char} (h : c ∈ padded width n) :
    c.isDigit = true := by
  rcases List.mem_append.mp h with zero | digit
  · rw [List.eq_of_mem_replicate zero]
    rfl
  · exact isDigit_of_mem_natural digit

theorem natural_ne_nil (n : Nat) : natural n ≠ [] := Nat.toDigits_ne_nil

theorem lt_length_pow {k : Nat} (positive : 0 < k) : k < (natural ((10 : Int) ^ k).natAbs).length := by
  rw [← not_le, natural, Nat.length_toDigits_le_iff (by decide) positive, Int.natAbs_pow]
  exact lt_irrefl _

theorem length_padded {width n : Nat} (h : n < 10 ^ width) (positive : 0 < width) :
    (padded width n).length = width := by
  have short : (natural n).length ≤ width := (Nat.length_toDigits_le_iff (by decide) positive).mpr h
  rw [padded, List.length_append, List.length_replicate]
  omega

theorem digitsFrom_eq (n : Nat) (cs : List Char) : digitsFrom n cs = Nat.ofDigitChars 10 cs n := rfl

theorem digitsValue_natural (n : Nat) : digitsValue (natural n) = n := Nat.ofDigitChars_ten_toDigits

theorem digitsFrom_natural (m n : Nat) :
    digitsFrom m (natural n) = 10 ^ (natural n).length * m + n := by
  rw [digitsFrom_eq, Nat.ofDigitChars_eq_ofDigitChars_zero, natural, Nat.ofDigitChars_ten_toDigits]

theorem digitsFrom_padded (m : Nat) {width n : Nat} (h : n < 10 ^ width) (positive : 0 < width) :
    digitsFrom m (padded width n) = m * 10 ^ width + n := by
  have short : (natural n).length ≤ width := (Nat.length_toDigits_le_iff (by decide) positive).mpr h
  have zeros : digitsFrom m (padded width n) =
      digitsFrom (10 ^ (width - (natural n).length) * m) (natural n) := by
    rw [padded, digitsFrom_eq, Nat.ofDigitChars_append, Nat.ofDigitChars_replicate_zero]
    rfl
  rw [zeros, digitsFrom_natural, ← Nat.mul_assoc, ← Nat.pow_add, Nat.add_sub_cancel' short,
    Nat.mul_comm]

/-- The digits after the point of a number with a fixed number of places. -/
def placesPart (places n : Nat) : List Char :=
  if places = 0 then [] else padded places (n % 10 ^ places)

/-- The digits before the point. -/
def placesWhole (places n : Nat) : List Char := natural (n / 10 ^ places)

theorem withPlaces_eq (places n : Nat) : withPlaces places n =
    placesWhole places n ++ if places = 0 then [] else '.' :: placesPart places n := by
  unfold withPlaces placesWhole placesPart
  by_cases h : places = 0
  · simp [h]
  · simp [h]

theorem positional_eq (s : Scaled) :
    positional s = withPlaces (-s.exponent).toNat (s.digits * 10 ^ s.exponent.toNat) := by
  unfold positional withPlaces
  by_cases h : 0 ≤ s.exponent
  · rw [if_pos h, if_pos (by omega)]
    rfl
  · have num : s.exponent.toNat = 0 := by omega
    rw [if_neg h, if_neg (by omega), num, Nat.pow_zero, Nat.mul_one]

theorem isDigit_of_mem_placesPart {places n : Nat} {c : Char} (h : c ∈ placesPart places n) :
    c.isDigit = true := by
  unfold placesPart at h
  split at h
  · cases h
  · exact isDigit_of_mem_padded h

theorem length_placesPart (places n : Nat) : (placesPart places n).length = places := by
  unfold placesPart
  split
  · simp [*]
  · exact length_padded (Nat.mod_lt _ (Nat.pow_pos (by decide))) (by omega)

theorem digitsValue_places (places n : Nat) :
    digitsValue (placesWhole places n ++ placesPart places n) = n := by
  have joined : digitsValue (placesWhole places n ++ placesPart places n) =
      digitsFrom (n / 10 ^ places) (placesPart places n) := by
    rw [digitsValue, digitsFrom_eq, Nat.ofDigitChars_append, ← digitsFrom_eq 0]
    exact congrArg (digitsFrom · _) (digitsValue_natural _)
  rw [joined]
  unfold placesPart
  split
  · simp [digitsFrom, *]
  · rw [digitsFrom_padded _ (Nat.mod_lt _ (Nat.pow_pos (by decide))) (by omega)]
    exact Nat.div_add_mod' n (10 ^ places)

/-- A written number holds nothing but digits, a point and a sign. -/
def isNumeric (c : Char) : Bool := c.isDigit || c == '.' || c == '-'

theorem isNumeric_of_mem_withPlaces {places n : Nat} {c : Char} (h : c ∈ withPlaces places n) :
    isNumeric c = true := by
  rw [withPlaces_eq] at h
  unfold isNumeric
  rcases List.mem_append.mp h with whole | part
  · simp [isDigit_of_mem_natural whole]
  · split at part
    · cases part
    · rcases List.mem_cons.mp part with rfl | digit
      · rfl
      · simp [isDigit_of_mem_placesPart digit]

theorem Numeral.isNumeric_of_mem {n : Numeral} {c : Char} (h : c ∈ n.text) :
    isNumeric c = true := by
  unfold text signed at h
  split at h
  · rcases List.mem_cons.mp h with rfl | inside
    · rfl
    · exact isNumeric_of_mem_withPlaces inside
  · exact isNumeric_of_mem_withPlaces h

theorem bounds_of_isDigit {c : Char} (h : c.isDigit = true) : 48 ≤ c.toNat ∧ c.toNat ≤ 57 := by
  simpa [Char.isDigit, UInt32.le_iff_toNat_le] using h

theorem textIsDigit_of_isDigit {c : Char} (h : c.isDigit = true) : Text.isDigit c = true := by
  have bounds := bounds_of_isDigit h
  have ascii : c.toNat < 128 := by omega
  have range : '0' ≤ c ∧ c ≤ '9' := by
    simpa [Char.isDigit, Char.le_def] using h
  simp [Text.isDigit, Text.digitValue?, ascii, range]

theorem takeWhile_append_stop {α : Type} {p : α → Bool} {front rest : List α}
    (all : ∀ c ∈ front, p c = true) (stops : ∀ c ∈ rest.head?, p c = false) :
    (front ++ rest).takeWhile p = front := by
  rw [List.takeWhile_append_of_pos all]
  cases rest with
  | nil => simp
  | cons c rest => simp [stops c rfl]

theorem dropWhile_append_stop {α : Type} {p : α → Bool} {front rest : List α}
    (all : ∀ c ∈ front, p c = true) (stops : ∀ c ∈ rest.head?, p c = false) :
    (front ++ rest).dropWhile p = rest := by
  rw [List.dropWhile_append_of_pos all]
  cases rest with
  | nil => simp
  | cons c rest => simp [stops c rfl]

theorem finite?_eq_some_iff {cs : List Char} {x : Float} :
    finite? cs = some x ↔ float? cs = some x ∧ Binary64.isFinite x = true := by
  unfold finite?
  cases float? cs with
  | none => simp
  | some y =>
    by_cases finite : Binary64.isFinite y = true
    · simp only [finite, if_true, Option.some.injEq]
      exact ⟨fun same => ⟨same, same ▸ finite⟩, And.left⟩
    · simp only [finite, Bool.false_eq_true, if_false, reduceCtorEq, Option.some.injEq, false_iff,
        not_and]
      exact fun same => same ▸ finite

theorem withPlaces_cons (places n : Nat) :
    ∃ c rest, withPlaces places n = c :: rest ∧ c.isDigit = true := by
  obtain ⟨c, rest, h⟩ := List.exists_cons_of_ne_nil (natural_ne_nil (n / 10 ^ places))
  rw [withPlaces_eq, placesWhole, h]
  exact ⟨c, _, rfl, isDigit_of_mem_natural (h ▸ List.mem_cons_self)⟩

theorem ne_of_isDigit {c d : Char} (h : c.isDigit = true) (other : d.isDigit = false) : c ≠ d := by
  rintro rfl
  rw [h] at other
  cases other

theorem trimMargins_eq {cs : List Char} (h : ∀ c ∈ cs, isMargin c = false) :
    trimMargins cs = cs := by
  have front : ∀ ds : List Char, (∀ c ∈ ds, isMargin c = false) → ds.dropWhile isMargin = ds := by
    intro ds all
    cases ds with
    | nil => rfl
    | cons c rest => simp [all c List.mem_cons_self]
  rw [trimMargins, front cs h, front cs.reverse (fun c hc => h c (List.mem_reverse.mp hc)),
    List.reverse_reverse]

theorem joinGroups_eq {cs : List Char} (h : '_' ∉ cs) (afterDigit : Bool) :
    joinGroups afterDigit cs = some cs := by
  induction cs generalizing afterDigit with
  | nil => rfl
  | cons c rest ih =>
    rw [joinGroups]
    · rw [ih (List.not_mem_of_not_mem_cons h), Option.map_some]
    · rintro rfl
      exact List.ne_of_not_mem_cons h rfl

theorem isNumeric_cases {c : Char} (h : isNumeric c = true) :
    c.isDigit = true ∨ c = '.' ∨ c = '-' := by
  simpa [isNumeric, or_assoc] using h

theorem isNumeric_bounds {c : Char} (h : isNumeric c = true) : 45 ≤ c.toNat ∧ c.toNat ≤ 57 := by
  rcases isNumeric_cases h with digit | rfl | rfl
  · have := bounds_of_isDigit digit
    omega
  · decide
  · decide

/-- Visible characters of ASCII are left as they are. -/
theorem normalForm_ascii {cs : List Char} (h : ∀ c ∈ cs, 0x20 < c.toNat ∧ c.toNat < 128 ∧ c ≠ '_') :
    normalForm cs = some cs := by
  have margin : ∀ c ∈ cs, isMargin c = false := by
    intro c hc
    obtain ⟨low, high, -⟩ := h c hc
    simp only [isMargin, Text.isBlank, Bool.not_and, Bool.and_eq_false_imp, Bool.or_eq_true,
      Bool.and_eq_true, decide_eq_true_eq, beq_iff_eq, Bool.or_eq_false_iff,
      Bool.not_eq_eq_eq_not, Bool.not_false]
    omega
  have ascii : cs.map asciiForm = cs :=
    (List.map_congr_left fun c hc => if_pos (h c hc).2.1).trans (List.map_id cs)
  have clean : '_' ∉ cs := fun hc => (h _ hc).2.2 rfl
  rw [normalForm, trimMargins_eq margin, ascii, joinGroups_eq clean]

theorem normalForm_eq {cs : List Char} (h : ∀ c ∈ cs, isNumeric c = true) :
    normalForm cs = some cs := by
  refine normalForm_ascii fun c hc => ?_
  have bounds := isNumeric_bounds (h c hc)
  refine ⟨by omega, by omega, ?_⟩
  rintro rfl
  exact absurd bounds (by decide)

/-- A word in letters is none of the numbers: those begin with a digit. -/
theorem ofList_ne_word {c : Char} (rest : List Char) (digit : c.isDigit = true) {letter : Char}
    {letters : List Char} (other : letter.isDigit = false) :
    String.ofList ((c :: rest).map Char.toLower) ≠ String.ofList (letter :: letters) := by
  intro same
  have lists := String.ofList_injective same
  have first : c.toLower = letter := (List.cons.inj lists).1
  have lower : c.toLower = c := by
    have small := (bounds_of_isDigit digit).2
    apply dif_neg
    simp only [ge_iff_le, UInt32.le_iff_toNat_le, not_and]
    intro upper
    exact absurd (Nat.le_trans upper small) (by decide)
  rw [← first, lower, digit] at other
  cases other

theorem unsigned?_withPlaces (negative : Bool) (places n : Nat) :
    unsigned? negative (withPlaces places n) = some (toFloat negative n (-places)) := by
  have whole : ∀ c ∈ placesWhole places n, c.isDigit = true := fun c h => isDigit_of_mem_natural h
  have part : ∀ c ∈ placesPart places n, c.isDigit = true := fun c h => isDigit_of_mem_placesPart h
  have filled : placesWhole places n ≠ [] := natural_ne_nil _
  have value := digitsValue_places places n
  have length := length_placesPart places n
  rw [withPlaces_eq]
  by_cases h : places = 0
  · subst h
    have none : placesPart 0 n = [] := rfl
    rw [none, List.append_nil] at value
    simp only [if_true]
    have stops : ∀ c ∈ ([] : List Char).head?, c.isDigit = false := by simp
    simp only [unsigned?, takeWhile_append_stop whole stops, dropWhile_append_stop whole stops]
    simp [filled, exponent?, value]
  · simp only [h, if_false]
    have point : ∀ c ∈ ('.' :: placesPart places n).head?, c.isDigit = false := by
      rintro c ⟨⟩
      rfl
    have takePart : (placesPart places n).takeWhile Char.isDigit = placesPart places n :=
      List.takeWhile_eq_self_iff.mpr part
    have dropPart : (placesPart places n).dropWhile Char.isDigit = [] :=
      List.dropWhile_eq_nil_iff.mpr part
    simp only [unsigned?, takeWhile_append_stop whole point, dropWhile_append_stop whole point,
      takePart, dropPart, filled, false_and, if_false, exponent?, Option.map_some, value, length,
      Int.zero_sub]

theorem splitSign_signed (negative : Bool) {c : Char} (digit : c.isDigit = true) (rest : List Char) :
    splitSign (signed negative (c :: rest)) = (negative, c :: rest) := by
  have notPlus : c ≠ '+' := ne_of_isDigit digit rfl
  have notMinus : c ≠ '-' := ne_of_isDigit digit rfl
  cases negative
  · simp [signed, splitSign, notPlus, notMinus]
  · rfl

/-- A written number reads as the double nearest to its digits over the power of ten of its
places. -/
theorem Numeral.float?_text (n : Numeral) : float? n.text = some n.value := by
  have normal : normalForm n.text = some n.text := normalForm_eq fun c h => isNumeric_of_mem h
  obtain ⟨negative, places, digits⟩ := n
  obtain ⟨c, tail, shape, digit⟩ := withPlaces_cons places digits
  have split : splitSign (signed negative (withPlaces places digits)) =
      (negative, withPlaces places digits) := by
    rw [shape]
    exact splitSign_signed negative digit tail
  have notWord (word : String) (letter : Char) (letters : List Char)
      (spelt : word = String.ofList (letter :: letters)) (other : letter.isDigit = false) :
      String.ofList ((withPlaces places digits).map Char.toLower) ≠ word := by
    rw [shape, spelt]
    exact ofList_ne_word tail digit other
  have notInf := notWord "inf" 'i' ['n', 'f'] rfl rfl
  have notInfinity := notWord "infinity" 'i' ['n', 'f', 'i', 'n', 'i', 't', 'y'] rfl rfl
  have notNan := notWord "nan" 'n' ['a', 'n'] rfl rfl
  rw [float?, normal]
  simp only [text, Option.bind_some, split]
  rw [if_neg (not_or.mpr ⟨notInf, notInfinity⟩), if_neg notNan]
  exact unsigned?_withPlaces negative places digits

/-! Integers. -/

theorem integer_eq (n : Int) : integer n = signed (n < 0) (natural n.natAbs) := by
  simp only [integer, signed, decide_eq_true_eq]

theorem isNumeric_of_mem_integer {n : Int} {c : Char} (h : c ∈ integer n) : isNumeric c = true := by
  unfold integer at h
  unfold isNumeric
  split at h
  · rcases List.mem_cons.mp h with rfl | digit
    · rfl
    · simp [isDigit_of_mem_natural digit]
  · simp [isDigit_of_mem_natural h]

/-- An integer reads as itself, unless it has more digits than one may be written with. -/
theorem int?_integer (n : Int) :
    int? (integer n) = if (natural n.natAbs).length ≤ maxIntegerDigits then some n else none := by
  have normal : normalForm (integer n) = some (integer n) :=
    normalForm_eq fun c h => isNumeric_of_mem_integer h
  have digits : (natural n.natAbs).all Char.isDigit = true :=
    List.all_eq_true.mpr fun c h => isDigit_of_mem_natural h
  obtain ⟨c, rest, shape⟩ := List.exists_cons_of_ne_nil (natural_ne_nil n.natAbs)
  have split : splitSign (integer n) = (decide (n < 0), natural n.natAbs) := by
    rw [integer_eq, shape]
    exact splitSign_signed _ (isDigit_of_mem_natural (shape ▸ List.mem_cons_self)) rest
  have value : (if n < 0 then -(n.natAbs : Int) else n.natAbs) = n := by omega
  rw [int?, normal]
  simp only [Option.bind_some, split, natural_ne_nil, digits, digitsValue_natural, decide_eq_true_eq,
    ne_eq, not_false_eq_true, true_and, value]

/-- So many digits stand for a number that needs no more of them. -/
theorem length_natural_digitsValue {cs : List Char} (filled : cs ≠ [])
    (digits : ∀ c ∈ cs, c.isDigit = true) : (natural (digitsValue cs)).length ≤ cs.length := by
  have below (m : Nat) (cs : List Char) (digits : ∀ c ∈ cs, c.isDigit = true) :
      digitsFrom m cs < (m + 1) * 10 ^ cs.length := by
    induction cs generalizing m with
    | nil => simp [digitsFrom]
    | cons c cs ih =>
      obtain ⟨digit, others⟩ := List.forall_mem_cons.mp digits
      have least : c.toNat - 48 ≤ 9 := by
        have bounds := Char.isDigit_iff_toNat.mp digit
        have nine : '9'.toNat = 57 := rfl
        omega
      have step : (10 * m + (c.toNat - 48) + 1) * 10 ^ cs.length ≤ (m + 1) * 10 ^ (cs.length + 1) := by
        rw [Nat.pow_succ', ← Nat.mul_assoc]
        exact Nat.mul_le_mul_right _ (by omega)
      exact (ih _ others).trans_le step
  rw [natural, Nat.length_toDigits_le_iff (by decide) (List.length_pos_iff.mpr filled)]
  simpa [digitsValue] using below 0 cs digits

/-- No text reads as an integer that has more digits than one may be written with. -/
theorem short_of_int? {cs : List Char} {n : Int} (reads : int? cs = some n) :
    (natural n.natAbs).length ≤ maxIntegerDigits := by
  obtain ⟨text, _, found⟩ := Option.bind_eq_some_iff.mp reads
  simp only [Option.ite_none_right_eq_some] at found
  obtain ⟨⟨filled, digits, short⟩, value⟩ := found
  have magnitude : n.natAbs = digitsValue (splitSign text).2 := by
    rw [← Option.some.inj value]
    split <;> omega
  rw [magnitude]
  exact (length_natural_digitsValue filled (List.all_eq_true.mp digits)).trans short

end Toolpath.Decimal
