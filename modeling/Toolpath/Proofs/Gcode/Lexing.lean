import Mathlib
import Toolpath.Gcode.Block
import Toolpath.Proofs.Gcode.Grammar
import Toolpath.Proofs.Gcode.Numbers
import Toolpath.Proofs.Text.Trim

/-! Reading a line of written words. The words stand between single blanks, and a comment may follow
behind a semicolon; such a line is lexed into its words and nothing else, and its block takes them
one after the other. -/
namespace Toolpath.Gcode
open Decimal

/-- A word as it is written: a capital letter and a number that reads as finite. -/
structure WrittenWord where
  letter : Char
  capital : letter.isUpper = true
  number : Numeral
  finite : Binary64.isFinite number.value = true

namespace WrittenWord

def text (w : WrittenWord) : List Char := w.letter :: w.number.text

def word (w : WrittenWord) : Word := ⟨w.letter, w.letter, w.number.text⟩

def kind (w : WrittenWord) : TokenKind := .ofLetter w.letter

end WrittenWord

/-- Words with single blanks between them. -/
def wordsText (w : WrittenWord) (ws : List WrittenWord) : List Char :=
  w.text ++ ws.flatMap fun v => ' ' :: v.text

theorem capital_bounds {c : Char} (h : c.isUpper = true) : 65 ≤ c.toNat ∧ c.toNat ≤ 90 := by
  simpa [Char.isUpper, UInt32.le_iff_toNat_le] using h

theorem isBlank_of_bounds {c : Char} (low : 33 ≤ c.toNat) (high : c.toNat ≤ 126) :
    Text.isBlank c = false := by
  simp only [Text.isBlank, Bool.or_eq_false_iff, Bool.and_eq_false_imp, decide_eq_true_eq,
    decide_eq_false_iff_not, beq_eq_false_iff_ne]
  omega

theorem ne_of_toNat {c d : Char} (h : c.toNat ≠ d.toNat) : c ≠ d := by
  rintro rfl
  exact h rfl

/-- The characters of a word are neither blank nor a semicolon, and none of them ends a line. -/
theorem WrittenWord.clean (w : WrittenWord) {c : Char} (member : c ∈ w.text) :
    33 ≤ c.toNat ∧ c.toNat ≤ 90 ∧ c ≠ ';' := by
  rcases List.mem_cons.mp member with rfl | inside
  · have bounds := capital_bounds w.capital
    exact ⟨by omega, by omega, ne_of_toNat (by change _ ≠ 59; omega)⟩
  · have bounds := isNumeric_bounds (Numeral.isNumeric_of_mem inside)
    exact ⟨by omega, by omega, ne_of_toNat (by change _ ≠ 59; omega)⟩

/-! The pieces of a line. -/

theorem WrittenWord.legal (w : WrittenWord) : w.word.Legal where
  letter := if_pos w.capital
  number := number_text w.number

/-- The pieces of the words and of the blanks behind them. -/
def wordPieces (w : WrittenWord) (ws : List WrittenWord) (k : Nat) : List Piece :=
  .word w.word :: (ws.flatMap fun v => [.blank ' ', .word v.word]) ++ List.replicate k (.blank ' ')

theorem wordPieces_legal (w : WrittenWord) (ws : List WrittenWord) (k : Nat) :
    ∀ p ∈ wordPieces w ws k, p.Legal := by
  intro p member
  rcases List.mem_append.mp member with words | blank
  · rcases List.mem_cons.mp words with rfl | following
    · exact .word w.legal
    · obtain ⟨v, _, following⟩ := List.mem_flatMap.mp following
      rcases List.mem_cons.mp following with rfl | word
      · exact .blank rfl
      · rw [List.mem_singleton.mp word]
        exact .word v.legal
  · rw [List.eq_of_mem_replicate blank]
    exact .blank rfl

theorem wordPieces_text (w : WrittenWord) (ws : List WrittenWord) (k : Nat) :
    (wordPieces w ws k).flatMap Piece.text = wordsText w ws ++ List.replicate k ' ' := by
  have blanks : (List.replicate k (Piece.blank ' ')).flatMap Piece.text = List.replicate k ' ' := by
    induction k with
    | zero => rfl
    | succ k ih => rw [List.replicate_succ, List.flatMap_cons, ih]; rfl
  have following (v : WrittenWord) :
      [Piece.blank ' ', .word v.word].flatMap Piece.text = ' ' :: v.text := by
    rw [List.flatMap_cons, List.flatMap_singleton]
    rfl
  rw [wordPieces, List.flatMap_append, blanks, List.flatMap_cons, List.flatMap_assoc, wordsText]
  simp only [following]
  rfl

theorem split_wordsText (w : WrittenWord) (ws : List WrittenWord) (k : Nat) :
    Piece.split (wordsText w ws ++ List.replicate k ' ') = wordPieces w ws k := by
  rw [← wordPieces_text, split_complete (wordPieces_legal w ws k)]

/-! A line around its first semicolon. -/

/-- What may stand behind the words: nothing, or a comment, possibly after blanks. -/
inductive Tail : List Char → Prop where
  | none : Tail []
  | comment (k : Nat) (text : List Char) (last : Char) (visible : Text.isBlank last = false) :
      Tail (List.replicate k ' ' ++ ';' :: (text ++ [last]))

theorem WrittenWord.text_last (w : WrittenWord) :
    ∃ front last, w.text = front ++ [last] ∧ Text.isBlank last = false := by
  have nonempty : w.text ≠ [] := by simp [text]
  refine ⟨w.text.dropLast, w.text.getLast nonempty, (List.dropLast_append_getLast nonempty).symm,
    ?_⟩
  have clean := w.clean (List.getLast_mem nonempty)
  exact isBlank_of_bounds clean.1 (by omega)

theorem wordsText_last (w : WrittenWord) (ws : List WrittenWord) :
    ∃ front last, wordsText w ws = front ++ [last] ∧ Text.isBlank last = false := by
  rcases List.eq_nil_or_concat ws with rfl | ⟨init, v, rfl⟩
  · simpa [wordsText] using w.text_last
  · obtain ⟨front, last, shape, visible⟩ := v.text_last
    exact ⟨w.text ++ ((init.flatMap fun v => ' ' :: v.text) ++ ' ' :: front), last,
      by simp [wordsText, shape], visible⟩

theorem line_last (w : WrittenWord) (ws : List WrittenWord) {tail : List Char}
    (allowed : Tail tail) :
    ∃ front last, wordsText w ws ++ tail = front ++ [last] ∧ Text.isBlank last = false := by
  cases allowed with
  | none => simpa using wordsText_last w ws
  | comment k text last visible =>
    exact ⟨wordsText w ws ++ (List.replicate k ' ' ++ ';' :: text), last, by simp, visible⟩

theorem trim_line (w : WrittenWord) (ws : List WrittenWord) {tail : List Char}
    (allowed : Tail tail) :
    Text.trim (wordsText w ws ++ tail) = wordsText w ws ++ tail := by
  obtain ⟨front, last, shape, visible⟩ := line_last w ws allowed
  have clean := w.clean (List.mem_cons_self)
  have starts : Text.isBlank w.letter = false := isBlank_of_bounds clean.1 (by omega)
  have cons : wordsText w ws ++ tail =
      w.letter :: (w.number.text ++ ((ws.flatMap fun v => ' ' :: v.text) ++ tail)) := by
    simp [wordsText, WrittenWord.text]
  rw [cons] at shape ⊢
  exact Text.trim_eq starts visible shape

theorem isCommentLine_line (w : WrittenWord) (ws : List WrittenWord) (tail : List Char) :
    isCommentLine (wordsText w ws ++ tail) = false := by
  have bounds := capital_bounds w.capital
  rw [wordsText, WrittenWord.text, List.cons_append, List.cons_append]
  unfold isCommentLine
  split
  · rename_i same
    rw [(List.cons.inj same).1] at bounds
    exact absurd bounds (by decide)
  · rename_i same
    rw [(List.cons.inj same).1] at bounds
    exact absurd bounds (by decide)
  · rename_i same
    rw [(List.cons.inj same).1] at bounds
    exact absurd bounds (by decide)
  · rfl

theorem semicolon_not_mem (w : WrittenWord) (ws : List WrittenWord) :
    ∀ c ∈ wordsText w ws, (c != ';') = true := by
  intro c member
  rw [bne_iff_ne]
  rcases List.mem_append.mp member with first | following
  · exact (w.clean first).2.2
  · obtain ⟨v, _, inside⟩ := List.mem_flatMap.mp following
    rcases List.mem_cons.mp inside with rfl | inside
    · decide
    · exact (v.clean inside).2.2

/-- The code of the line are the words and blanks behind them. -/
theorem code_line (w : WrittenWord) (ws : List WrittenWord) {tail : List Char}
    (allowed : Tail tail) :
    ∃ k, (LineParts.ofLine (wordsText w ws ++ tail)).code =
      wordsText w ws ++ List.replicate k ' ' := by
  have words := semicolon_not_mem w ws
  simp only [LineParts.ofLine, trim_line w ws allowed]
  cases allowed with
  | none =>
    refine ⟨0, ?_⟩
    rw [takeWhile_append_stop words (by simp)]
    simp
  | comment k text last visible =>
    refine ⟨k, ?_⟩
    have blanks : ∀ c ∈ List.replicate k ' ', (c != ';') = true := by
      intro c member
      rw [List.eq_of_mem_replicate member]
      rfl
    have code : ∀ c ∈ wordsText w ws ++ List.replicate k ' ', (c != ';') = true := by
      intro c member
      rcases List.mem_append.mp member with inside | inside
      · exact words c inside
      · exact blanks c inside
    rw [← List.append_assoc, takeWhile_append_stop code (by simp)]

/-! The tokens of a line. Their places matter for reports only. -/

/-- What a token says wherever it stands. -/
def Token.content (t : Token) : TokenKind × List Char := (t.kind, t.value)

def Piece.content? : Piece → Option (TokenKind × List Char)
  | .word w => some (.ofLetter w.letter, w.number)
  | .comment text _ => some (.comment, text)
  | .blank _ | .junk _ => none

def WrittenWord.content (w : WrittenWord) : TokenKind × List Char := (w.kind, w.number.text)

theorem placed_pieces (start : Nat) (ps : List Piece) :
    (Piece.placed start ps).map Prod.snd = ps := by
  induction ps generalizing start with
  | nil => rfl
  | cons p rest ih => rw [Piece.placed, List.map_cons, ih]

theorem Piece.mem_of_placed {start : Nat} {ps : List Piece} {found : Nat × Piece}
    (member : found ∈ placed start ps) : found.2 ∈ ps := by
  rw [← placed_pieces start ps]
  exact List.mem_map_of_mem member

theorem placed_content (number : Int) (start : Nat) (ps : List Piece) :
    ((Piece.placed start ps).filterMap fun (start, p) => Token.ofPiece? number start p).map
        Token.content =
      ps.filterMap Piece.content? := by
  have content (start : Nat) (p : Piece) :
      (Token.ofPiece? number start p).map Token.content = p.content? := by
    cases p <;> rfl
  conv_rhs => rw [← placed_pieces start ps, List.filterMap_map]
  rw [List.map_filterMap]
  exact List.filterMap_congr fun placed _ => content placed.1 placed.2

/-- Blanks apart, the pieces of a line of words are its words. -/
theorem wordPieces_filterMap {β : Type} (g : Piece → Option β) (blank : g (.blank ' ') = none)
    (w : WrittenWord) (ws : List WrittenWord) (k : Nat) :
    (wordPieces w ws k).filterMap g = (w :: ws).filterMap fun v => g (.word v.word) := by
  have following : (ws.flatMap fun v => [Piece.blank ' ', .word v.word]).filterMap g =
      ws.filterMap fun v => g (.word v.word) := by
    induction ws with
    | nil => rfl
    | cons v rest ih =>
      rw [List.flatMap_cons, List.filterMap_append, ih, List.filterMap_cons_none blank,
        List.filterMap_cons, List.filterMap_cons]
      cases g (.word v.word) <;> rfl
  have blanks : (List.replicate k (Piece.blank ' ')).filterMap g = [] :=
    List.filterMap_replicate_of_none blank
  rw [wordPieces, List.filterMap_append, blanks, List.append_nil, List.filterMap_cons, following,
    List.filterMap_cons]

theorem wordPieces_content (w : WrittenWord) (ws : List WrittenWord) (k : Nat) :
    (wordPieces w ws k).filterMap Piece.content? = (w :: ws).map WrittenWord.content := by
  rw [wordPieces_filterMap Piece.content? rfl, ← List.filterMap_eq_map]
  rfl

theorem Piece.Legal.silent {p : Piece} (legal : p.Legal) (number : Int) (start : Nat) :
    p.diagnostic? number start = none := by
  cases legal <;> rfl

/-- Nothing is reported about the pieces of a text exactly if it is written by the grammar. -/
theorem split_silent_iff (number : Int) (start : Nat) (cs : List Char) :
    (Piece.placed start (Piece.split cs)).filterMap
        (fun (start, p) => p.diagnostic? number start) = [] ↔ ∀ p ∈ Piece.split cs, p.Legal := by
  rw [List.filterMap_eq_nil_iff]
  constructor
  · intro silent p member
    rw [← placed_pieces start (Piece.split cs)] at member
    obtain ⟨⟨place, q⟩, placed, rfl⟩ := List.mem_map.mp member
    have unreported := silent _ placed
    rw [placed_pieces] at member
    rcases split_sound member with legal | ⟨run, rfl⟩ | ⟨text, rfl⟩
    · exact legal
    · cases unreported
    · cases unreported
  · rintro legal ⟨place, p⟩ placed
    exact (legal p (Piece.mem_of_placed placed)).silent number place

/-! The tokens of a line that is one comment, and of any other. -/

theorem isCommentLine_iff (cs : List Char) :
    isCommentLine cs = true ↔ ∃ c ∈ ['(', ';', '%'], cs.head? = some c := by
  cases cs with
  | nil => simp [isCommentLine]
  | cons c rest =>
    simp only [List.mem_cons, List.not_mem_nil, or_false, List.head?_cons, Option.some.injEq,
      exists_eq_right']
    unfold isCommentLine
    split <;> simp_all

theorem tokens_eq (number : Int) {line : List Char}
    (code : isCommentLine (LineParts.ofLine line).stripped = false) :
    tokens number line =
      (LineParts.ofLine line).pieces.filterMap
          (fun (start, p) => Token.ofPiece? number start p) ++
        ((LineParts.ofLine line).trailingToken? number).toList := by
  unfold tokens
  simp only [code, Bool.false_eq_true, if_false]
  split
  · rename_i empty
    have trimmed : Text.trim line = [] := empty
    have pieces : Piece.split [] = [] := by rw [Piece.split]
    simp [LineParts.pieces, LineParts.trailingToken?, LineParts.ofLine, trimmed, pieces,
      Piece.placed]
  · rfl

theorem tokenDiagnostics_eq (number : Int) {line : List Char}
    (code : isCommentLine (LineParts.ofLine line).stripped = false) :
    tokenDiagnostics number line =
      (LineParts.ofLine line).pieces.filterMap fun (start, p) => p.diagnostic? number start := by
  unfold tokenDiagnostics
  simp only [code, Bool.false_eq_true, or_false]
  split
  · rename_i empty
    have trimmed : Text.trim line = [] := empty
    have pieces : Piece.split [] = [] := by rw [Piece.split]
    simp [LineParts.pieces, LineParts.ofLine, trimmed, pieces, Piece.placed]
  · rfl

theorem tokens_commentLine (number : Int) {line : List Char}
    (comment : isCommentLine (LineParts.ofLine line).stripped = true) :
    tokens number line = [⟨.comment, (LineParts.ofLine line).stripped, number,
      (LineParts.ofLine line).start, (LineParts.ofLine line).stop, []⟩] := by
  have filled : (LineParts.ofLine line).stripped ≠ [] := by
    intro empty
    rw [empty] at comment
    cases comment
  unfold tokens
  simp only [if_neg filled, comment, if_true]

theorem trailingToken?_start {number : Int} {parts : LineParts} {t : Token}
    (token : parts.trailingToken? number = some t) :
    t.kind = .comment ∧ t.letter = [] ∧ t.start = parts.start + parts.code.length ∧
      t.stop = parts.stop := by
  obtain ⟨text, _, rfl⟩ := Option.map_eq_some_iff.mp token
  exact ⟨rfl, rfl, rfl, rfl⟩

/-- A line of words has a token for each word, and then comments only. -/
theorem tokens_line (number : Int) (w : WrittenWord) (ws : List WrittenWord) {tail : List Char}
    (allowed : Tail tail) : ∃ ts comments, tokens number (wordsText w ws ++ tail) = ts ++ comments ∧
      ts.map Token.content = (w :: ws).map WrittenWord.content ∧
      ∀ t ∈ comments, t.kind = .comment := by
  obtain ⟨k, code⟩ := code_line w ws allowed
  have trimmed := trim_line w ws allowed
  have stripped : (LineParts.ofLine (wordsText w ws ++ tail)).stripped = wordsText w ws ++ tail :=
    trimmed
  have commentless : isCommentLine (LineParts.ofLine (wordsText w ws ++ tail)).stripped = false := by
    rw [stripped, isCommentLine_line]
  rw [tokens_eq number commentless]
  refine ⟨_, _, rfl, ?_, ?_⟩
  · rw [LineParts.pieces, code, split_wordsText, placed_content, wordPieces_content]
  · intro t member
    exact (trailingToken?_start (Option.mem_toList.mp member)).1

theorem tokenDiagnostics_line (number : Int) (w : WrittenWord) (ws : List WrittenWord)
    {tail : List Char} (allowed : Tail tail) :
    tokenDiagnostics number (wordsText w ws ++ tail) = [] := by
  obtain ⟨k, code⟩ := code_line w ws allowed
  unfold tokenDiagnostics
  simp only
  split
  · rfl
  · rw [LineParts.pieces, code, split_silent_iff, split_wordsText]
    exact wordPieces_legal w ws k

end Toolpath.Gcode
