import Mathlib
import Toolpath.Proofs.Gcode.Coordinates
import Toolpath.Proofs.Gcode.Lexing

/-! Constants as words. The text of a constant holds digits, a point and a minus, whichever way it is
written: a whole number with all its digits, or the shortest digits moved behind the point. Behind a
letter it is the number of a word as a whole, and that number is the constant. -/
namespace Toolpath.Gcode
open Binary64 Decimal

variable {x : Float}

theorem isNumeric_of_mem_constant (finite : isFinite x = true) :
    ∀ c ∈ constant x, isNumeric c = true := by
  obtain ⟨n, text, -, -⟩ := exists_constant finite
  rw [text]
  exact fun c => Numeral.isNumeric_of_mem

theorem number_constant (finite : isFinite x = true) : Number (constant x) := by
  obtain ⟨n, text, -, -⟩ := exists_constant finite
  rw [text]
  exact number_text n

theorem finite?_constant (finite : isFinite x = true) :
    ∃ y, finite? (constant x) = some y ∧ isFinite y = true ∧ value y = value x := by
  obtain ⟨n, text, reads, finiteY⟩ := exists_constant finite
  have same := (beq_iff_value (isFinite_reread finite) finite).mp (reread_beq finite)
  refine ⟨n.value, ?_, finiteY, reads ▸ same⟩
  rw [text, finite?_eq_some_iff]
  exact ⟨n.float?_text, finiteY⟩

/-- A line that is one word has the token of that word. -/
theorem tokens_word {w : Word} (legal : w.Legal) (numeric : ∀ c ∈ w.number, isNumeric c = true)
    (number : Int) : tokens number w.text =
      [⟨.ofLetter w.letter, w.number, number, 0, w.text.length, [w.letter]⟩] := by
  have visible : ∀ c ∈ w.text, Text.isBlank c = false ∧ c ≠ ';' := by
    refine List.forall_mem_cons.mpr ⟨⟨letter_not_blank legal.letter, ?_⟩, fun c member => ?_⟩
    · exact letter_ne legal.letter (by decide)
    · have bounds := isNumeric_bounds (numeric c member)
      exact ⟨isBlank_of_bounds (by omega) (by omega), ne_of_toNat (by change _ ≠ 59; omega)⟩
  have trimmed : Text.trim w.text = w.text := Text.trim_visible fun c member => (visible c member).1
  have noSemicolon : ∀ c ∈ w.text, (c != ';') = true := fun c member => bne_iff_ne.mpr (visible c member).2
  have parts : LineParts.ofLine w.text = ⟨0, w.text, w.text, none⟩ := by
    have start : Text.leadingBlanks w.text = 0 := by
      simp [Text.leadingBlanks, Word.text, letter_not_blank legal.letter]
    simp only [LineParts.ofLine, trimmed, start, List.takeWhile_eq_self_iff.mpr noSemicolon,
      List.dropWhile_eq_nil_iff.mpr noSemicolon]
  have commentless : isCommentLine w.text = false := by
    rw [Bool.eq_false_iff, Ne, isCommentLine_iff]
    rintro ⟨c, opening, first⟩
    have none : capitalLetter? c = none := by
      fin_cases opening <;> decide
    exact letter_ne legal.letter none (Option.some.inj first)
  have split : Piece.split w.text = [.word w] := by
    have pieces := @split_complete [.word w] (by simpa using Piece.Legal.word legal)
    simpa [Piece.text] using pieces
  rw [tokens_eq number (by rw [parts]; exact commentless), parts, LineParts.pieces, split]
  simp [Piece.placed, Token.ofPiece?, LineParts.trailingToken?, Piece.length, Piece.text]

/-- A constant is written without an exponent, as one number that a letter makes a word of, and is
read from that word as the same number. -/
theorem constant_survives (finite : isFinite x = true) :
    (∀ c ∈ constant x, c.isDigit = true ∨ c = '.' ∨ c = '-') ∧
      ∀ {spelt letter : Char}, capitalLetter? spelt = some letter →
        (∀ rest, Ends rest →
          Word.scan? (spelt :: (constant x ++ rest)) = some (⟨spelt, letter, constant x⟩, rest)) ∧
        ∀ number : Int, ∃ t y, tokens number (spelt :: constant x) = [t] ∧ t.value = constant x ∧
          t.number? = some y ∧ isFinite y = true ∧ value y = value x := by
  have numeric := isNumeric_of_mem_constant finite
  refine ⟨fun c member => isNumeric_cases (numeric c member), fun {spelt letter} capital => ?_⟩
  have legal : (⟨spelt, letter, constant x⟩ : Word).Legal := ⟨capital, number_constant finite⟩
  refine ⟨fun rest ends => Word.scan?_complete legal ends, fun number => ?_⟩
  obtain ⟨y, reads, finiteY, same⟩ := finite?_constant finite
  exact ⟨_, y, tokens_word legal numeric number, rfl, reads, finiteY, same⟩

/-- A hundred-thousandth, which has an exponent in its shortest form, as a feed. -/
theorem constant_survives_small : isFinite 1e-5 = true ∧ capitalLetter? 'f' = some 'F' ∧ Ends [' '] ∧
    constant 1e-5 = "0.00001".toList ∧
    Word.scan? "f0.00001 ".toList = some (⟨'f', 'F', "0.00001".toList⟩, [' ']) ∧
    ∃ t y, tokens 1 "f0.00001".toList = [t] ∧ t.number? = some y ∧ value y = value 1e-5 := by
  have finite : isFinite 1e-5 = true := by decide
  have capital : capitalLetter? 'f' = some 'F' := by decide
  have ends : Ends [' '] := by
    rintro c ⟨⟩
    decide
  have spelt : constant 1e-5 = "0.00001".toList := by decide +kernel
  obtain ⟨scanned, token⟩ := (constant_survives finite).2 capital
  obtain ⟨t, y, tokens, -, reads, -, same⟩ := token 1
  have word := scanned [' '] ends
  rw [spelt] at word tokens
  exact ⟨finite, capital, ends, spelt, word, t, y, tokens, reads, same⟩

end Toolpath.Gcode
