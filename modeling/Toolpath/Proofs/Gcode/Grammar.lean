import Mathlib
import Toolpath.Gcode.Piece
import Toolpath.Proofs.Decimal.Numeral

/-! The grammar of a line of code: blanks, closed comments and words in any order, where a word is a
letter directly followed by a decimal number. Nothing that can follow a word in such a line can be
taken for a part of its number, so splitting finds just the pieces that the line is written with. -/
namespace Toolpath.Gcode
open Decimal

/-! Numbers. -/

def Digits (cs : List Char) : Prop := ∀ c ∈ cs, Text.isDigit c = true

/-- Digits, with a point before, between or behind them. -/
inductive Unsigned : List Char → Prop where
  | whole {digits : List Char} : Digits digits → digits ≠ [] → Unsigned digits
  | point {whole part : List Char} : Digits whole → Digits part → whole ≠ [] ∨ part ≠ [] →
      Unsigned (whole ++ '.' :: part)

/-- A number as a word has it, with or without a sign. -/
inductive Number : List Char → Prop where
  | plain {cs : List Char} : Unsigned cs → Number cs
  | signed {sign : Char} {cs : List Char} : sign = '+' ∨ sign = '-' → Unsigned cs →
      Number (sign :: cs)

/-- What may follow a number without becoming part of it. -/
def Ends (rest : List Char) : Prop := ∀ c ∈ rest.head?, Text.isDigit c = false ∧ c ≠ '.'

variable {cs number rest : List Char}

theorem scanUnsigned?_complete (unsigned : Unsigned number) (ends : Ends rest) :
    scanUnsigned? (number ++ rest) = some (number, rest) := by
  have stops : ∀ c ∈ rest.head?, Text.isDigit c = false := fun c h => (ends c h).1
  cases unsigned with
  | whole digits filled =>
    simp only [scanUnsigned?, takeWhile_append_stop digits stops, dropWhile_append_stop digits stops]
    split
    · exact absurd rfl (ends _ rfl).2
    · rw [if_neg filled]
  | @point whole part digits others filled =>
    have point : ∀ c ∈ ('.' :: (part ++ rest)).head?, Text.isDigit c = false := by
      rintro c ⟨⟩
      decide
    have some : ¬ (whole = [] ∧ part = []) := by
      rintro ⟨rfl, rfl⟩
      simp at filled
    rw [List.append_assoc, List.cons_append]
    simp only [scanUnsigned?, takeWhile_append_stop digits point, dropWhile_append_stop digits point,
      takeWhile_append_stop others stops, dropWhile_append_stop others stops, if_neg some]

theorem scanUnsigned?_sound (scanned : scanUnsigned? cs = some (number, rest)) :
    Unsigned number := by
  have digits (cs : List Char) : Digits (cs.takeWhile Text.isDigit) :=
    fun c member => List.mem_takeWhile_imp member
  simp only [scanUnsigned?] at scanned
  split at scanned
  · rename_i more _
    split at scanned
    · cases scanned
    · rename_i some
      obtain ⟨rfl, -⟩ := Prod.mk.inj (Option.some.inj scanned)
      exact .point (digits cs) (digits more) (not_and_or.mp some)
  · split at scanned
    · cases scanned
    · rename_i some
      obtain ⟨rfl, -⟩ := Prod.mk.inj (Option.some.inj scanned)
      exact .whole (digits cs) some

theorem Unsigned.head (unsigned : Unsigned number) :
    ∃ c rest, number = c :: rest ∧ (Text.isDigit c = true ∨ c = '.') := by
  cases unsigned with
  | whole digits filled =>
    obtain ⟨c, rest, rfl⟩ := List.exists_cons_of_ne_nil filled
    exact ⟨c, rest, rfl, .inl (digits c List.mem_cons_self)⟩
  | @point whole part digits _ _ =>
    cases whole with
    | nil => exact ⟨'.', part, rfl, .inr rfl⟩
    | cons c rest => exact ⟨c, rest ++ '.' :: part, rfl, .inl (digits c List.mem_cons_self)⟩

theorem scanNumber?_complete (valid : Number number) (ends : Ends rest) :
    scanNumber? (number ++ rest) = some (number, rest) := by
  cases valid with
  | plain unsigned =>
    have scanned := scanUnsigned?_complete unsigned ends
    obtain ⟨c, more, rfl, first⟩ := unsigned.head
    have unsign : c ≠ '+' ∧ c ≠ '-' := by
      rcases first with digit | rfl
      · constructor <;> rintro rfl <;> exact absurd digit (by decide)
      · decide
    simpa [scanNumber?, unsign.1, unsign.2] using scanned
  | signed sign unsigned =>
    have scanned := scanUnsigned?_complete unsigned ends
    rcases sign with rfl | rfl <;> simp only [List.cons_append, scanNumber?, scanned, Option.map_some]

theorem scanNumber?_sound (scanned : scanNumber? cs = some (number, rest)) : Number number := by
  unfold scanNumber? at scanned
  split at scanned
  · obtain ⟨⟨n, r⟩, unsigned, eq⟩ := Option.map_eq_some_iff.mp scanned
    obtain ⟨rfl, -⟩ := Prod.mk.inj eq
    exact .signed (.inl rfl) (scanUnsigned?_sound unsigned)
  · obtain ⟨⟨n, r⟩, unsigned, eq⟩ := Option.map_eq_some_iff.mp scanned
    obtain ⟨rfl, -⟩ := Prod.mk.inj eq
    exact .signed (.inr rfl) (scanUnsigned?_sound unsigned)
  · exact .plain (scanUnsigned?_sound scanned)

/-- A numeral is written as a number. -/
theorem number_text (n : Numeral) : Number n.text := by
  have digits {cs : List Char} (all : ∀ c ∈ cs, c.isDigit = true) : Digits cs :=
    fun c member => textIsDigit_of_isDigit (all c member)
  have whole : Digits (placesWhole n.places n.digits) := digits fun _ => isDigit_of_mem_natural
  have filled : placesWhole n.places n.digits ≠ [] := natural_ne_nil _
  have unsigned : Unsigned (withPlaces n.places n.digits) := by
    rw [withPlaces_eq]
    split
    · rw [List.append_nil]
      exact .whole whole filled
    · exact .point whole (digits fun _ => isDigit_of_mem_placesPart) (.inl filled)
  rw [Numeral.text, signed]
  split
  · exact .signed (.inr rfl) unsigned
  · exact .plain unsigned

/-! Words and pieces. -/

namespace Word

structure Legal (w : Word) : Prop where
  letter : capitalLetter? w.spelt = some w.letter
  number : Number w.number

theorem scan?_complete {w : Word} (legal : w.Legal) (ends : Ends rest) :
    scan? (w.text ++ rest) = some (w, rest) := by
  rw [text, List.cons_append, scan?, legal.letter, scanNumber?_complete legal.number ends]
  rfl

theorem scan?_sound {w : Word} (scanned : scan? cs = some (w, rest)) : w.Legal := by
  cases cs with
  | nil => cases scanned
  | cons c cs =>
    obtain ⟨letter, capital, mapped⟩ := Option.bind_eq_some_iff.mp scanned
    obtain ⟨⟨number, r⟩, numbered, eq⟩ := Option.map_eq_some_iff.mp mapped
    obtain ⟨rfl, -⟩ := Prod.mk.inj eq
    exact ⟨capital, scanNumber?_sound numbered⟩

end Word

/-- The pieces that a line may be written with. -/
inductive Piece.Legal : Piece → Prop where
  | blank {c : Char} : Text.isBlank c = true → Legal (.blank c)
  | comment {text : List Char} : ')' ∉ text → Legal (.comment text true)
  | word {w : Word} : w.Legal → Legal (.word w)

/-! Characters that part the pieces. -/

theorem letter_cases {c letter : Char} (capital : capitalLetter? c = some letter) :
    65 ≤ c.toNat ∧ c.toNat ≤ 90 ∨ 97 ≤ c.toNat ∧ c.toNat ≤ 122 ∨
      c.toNat ∈ [0x131, 0x17F, 0x130, 0x212A] := by
  unfold capitalLetter? at capital
  split at capital
  · rename_i upper
    exact .inl (by simpa [Char.isUpper, UInt32.le_iff_toNat_le] using upper)
  · split at capital
    · rename_i lower
      exact .inr (.inl (by simpa [Char.isLower, UInt32.le_iff_toNat_le] using lower))
    · refine .inr (.inr ?_)
      split_ifs at capital <;> simp_all

theorem isDigit_cases {c : Char} (digit : Text.isDigit c = true) :
    48 ≤ c.toNat ∧ c.toNat ≤ 57 ∨
      ∃ first ∈ Text.scriptZeros, first ≤ c.toNat ∧ c.toNat < first + 10 := by
  unfold Text.isDigit Text.digitValue? at digit
  split at digit
  · split at digit
    · rename_i range
      exact .inl ⟨range.1, range.2⟩
    · cases digit
  · obtain ⟨value, found⟩ := Option.isSome_iff_exists.mp digit
    obtain ⟨first, member, here⟩ := List.exists_of_findSome?_eq_some found
    split at here
    · rename_i range
      exact .inr ⟨first, member, range⟩
    · cases here

theorem scriptZeros_bounds : ∀ first ∈ Text.scriptZeros, 0x660 ≤ first ∧
    (first + 10 ≤ 0x1680 ∨ 0x1680 < first ∧ first + 10 ≤ 0x2000 ∨ 0x3000 < first) := by
  decide

/-- Neither a blank nor a letter is a digit. -/
theorem blank_not_digit {c : Char} (blank : Text.isBlank c = true) : Text.isDigit c = false := by
  rw [Bool.eq_false_iff]
  intro digit
  simp only [Text.isBlank, Bool.or_eq_true, Bool.and_eq_true, decide_eq_true_eq, beq_iff_eq] at blank
  rcases isDigit_cases digit with ascii | ⟨first, member, range⟩
  · omega
  · have bounds := scriptZeros_bounds first member
    omega

theorem letter_not_digit {c letter : Char} (capital : capitalLetter? c = some letter) :
    Text.isDigit c = false := by
  rw [Bool.eq_false_iff]
  intro digit
  have letters := letter_cases capital
  simp only [List.mem_cons, List.not_mem_nil, or_false] at letters
  rcases isDigit_cases digit with ascii | ⟨first, member, range⟩
  · omega
  · have bounds := scriptZeros_bounds first member
    omega

theorem letter_not_blank {c letter : Char} (capital : capitalLetter? c = some letter) :
    Text.isBlank c = false := by
  have letters := letter_cases capital
  simp only [List.mem_cons, List.not_mem_nil, or_false] at letters
  simp only [Text.isBlank, Bool.or_eq_false_iff, Bool.and_eq_false_imp, decide_eq_true_eq,
    decide_eq_false_iff_not, beq_eq_false_iff_ne]
  omega

theorem letter_ne {c letter d : Char} (capital : capitalLetter? c = some letter)
    (other : capitalLetter? d = none) : c ≠ d := by
  rintro rfl
  rw [capital] at other
  cases other

/-- A piece begins with a blank, a parenthesis or a letter. -/
theorem Piece.Legal.head {p : Piece} (legal : p.Legal) : ∃ c rest, p.text = c :: rest ∧
    (Text.isBlank c = true ∨ c = '(' ∨ ∃ letter, capitalLetter? c = some letter) := by
  cases legal with
  | @blank c blank => exact ⟨c, [], rfl, .inl blank⟩
  | comment _ => exact ⟨'(', _, rfl, .inr (.inl rfl)⟩
  | @word w valid => exact ⟨w.spelt, w.number, rfl, .inr (.inr ⟨w.letter, valid.letter⟩)⟩

/-- None of these goes on with a number. -/
theorem ends_pieces {ps : List Piece} (legal : ∀ p ∈ ps, p.Legal) : Ends (ps.flatMap Piece.text) := by
  cases ps with
  | nil =>
    rintro c ⟨⟩
  | cons p ps =>
    obtain ⟨c, rest, text, begins⟩ := (legal p List.mem_cons_self).head
    rw [List.flatMap_cons, text]
    rintro d ⟨⟩
    rcases begins with blank | rfl | ⟨letter, capital⟩
    · exact ⟨blank_not_digit blank, by rintro rfl; exact absurd blank (by decide)⟩
    · decide
    · exact ⟨letter_not_digit capital, letter_ne capital rfl⟩

theorem Piece.scanComment_closed {inner : List Char} (clear : ')' ∉ inner) (rest : List Char) :
    scanComment (inner ++ ')' :: rest) = (.comment inner true, rest) := by
  have inside : ∀ c ∈ inner, (c != ')') = true := fun c member =>
    bne_iff_ne.mpr fun same => clear (same ▸ member)
  have stops : ∀ c ∈ (')' :: rest).head?, (c != ')') = false := by
    rintro c ⟨⟩
    rfl
  rw [scanComment, takeWhile_append_stop inside stops, dropWhile_append_stop inside stops]

theorem Piece.scanComment_open {inner : List Char} (clear : ')' ∉ inner) :
    scanComment inner = (.comment inner false, []) := by
  have inside : ∀ c ∈ inner, (c != ')') = true := fun c member =>
    bne_iff_ne.mpr fun same => clear (same ▸ member)
  rw [scanComment, List.dropWhile_eq_nil_iff.mpr inside]

theorem scan_complete {p : Piece} (legal : p.Legal) (ends : Ends rest) :
    ∃ c more, p.text ++ rest = c :: more ∧ Piece.scan c more = (p, rest) := by
  cases legal with
  | @blank c blank => exact ⟨c, rest, rfl, if_pos blank⟩
  | @comment text closed =>
    refine ⟨'(', text ++ ')' :: rest, by simp [Piece.text], ?_⟩
    exact Piece.scanComment_closed closed rest
  | @word w legal =>
    refine ⟨w.spelt, w.number ++ rest, rfl, ?_⟩
    have scanned := Word.scan?_complete legal ends
    rw [Word.text, List.cons_append] at scanned
    rw [Piece.scan, letter_not_blank legal.letter, if_neg Bool.false_ne_true,
      if_neg (letter_ne legal.letter rfl), scanned]

/-- A line written with such pieces is split into them. -/
theorem split_complete {ps : List Piece} (legal : ∀ p ∈ ps, p.Legal) :
    Piece.split (ps.flatMap Piece.text) = ps := by
  induction ps with
  | nil => rw [List.flatMap_nil, Piece.split]
  | cons p ps ih =>
    have later := List.forall_mem_of_forall_mem_cons legal
    obtain ⟨c, more, text, scanned⟩ :=
      scan_complete (legal p List.mem_cons_self) (ends_pieces later)
    rw [List.flatMap_cons, text, Piece.split, scanned, ih later]

theorem scan_sound (c : Char) (rest : List Char) :
    (Piece.scan c rest).1.Legal ∨ (∃ run, (Piece.scan c rest).1 = .junk run) ∨
      ∃ text, (Piece.scan c rest).1 = .comment text false := by
  unfold Piece.scan
  split
  · rename_i blank
    exact .inl (.blank blank)
  · split
    · unfold Piece.scanComment
      split
      · exact .inr (.inr ⟨_, rfl⟩)
      · refine .inl (.comment fun member => ?_)
        simpa using List.mem_takeWhile_imp member
    · split
      · rename_i scanned
        exact .inl (.word (Word.scan?_sound scanned))
      · exact .inr (.inl ⟨_, rfl⟩)

/-- What splitting finds is such a piece, unless it is junk or a comment that is not closed. -/
theorem split_sound {cs : List Char} {p : Piece} (member : p ∈ Piece.split cs) :
    p.Legal ∨ (∃ run, p = .junk run) ∨ ∃ text, p = .comment text false := by
  fun_induction Piece.split cs with
  | case1 => cases member
  | case2 c rest ih =>
    rcases List.mem_cons.mp member with rfl | later
    · exact scan_sound c rest
    · exact ih later

theorem isBlank_of_mem_split {cs : List Char} {c : Char} (member : .blank c ∈ Piece.split cs) :
    Text.isBlank c = true := by
  rcases split_sound member with legal | ⟨_, none⟩ | ⟨_, none⟩
  · cases legal with
    | blank blank => exact blank
  · cases none
  · cases none

theorem legal_of_mem_split {cs : List Char} {w : Word} (member : .word w ∈ Piece.split cs) :
    w.Legal := by
  rcases split_sound member with legal | ⟨_, none⟩ | ⟨_, none⟩
  · cases legal with
    | word legal => exact legal
  · cases none
  · cases none

end Toolpath.Gcode
