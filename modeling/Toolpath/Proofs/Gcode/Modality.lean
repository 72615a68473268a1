import Mathlib
import Toolpath.Proofs.Gcode.Reading
import Toolpath.Proofs.Numeric.Ordering

/-! The moves of a program, said by looking back. A line asks for a motion if one of its words
outside comments is G0 or G1; each value of its move is the one that the latest motion line to give
one gives. Reading goes forward and carries the values along, and comes to the same moves. -/
namespace Toolpath.Gcode
open Decimal

def Piece.word? : Piece → Option Word
  | .word w => some w
  | .blank _ | .comment _ _ | .junk _ => none

/-- The words of a line that stand outside its comments, in order. -/
def words (line : List Char) : List Word :=
  let parts := LineParts.ofLine line
  if isCommentLine parts.stripped then [] else (Piece.split parts.code).filterMap Piece.word?

theorem words_of_comment {line : List Char} (comment : isCommentLine (Text.trim line) = true) :
    words line = [] := if_pos comment

theorem words_of_code {line : List Char} (code : isCommentLine (Text.trim line) = false) :
    words line =
      (Piece.split ((Text.trim line).takeWhile (· != ';'))).filterMap Piece.word? :=
  if_neg (Bool.eq_false_iff.mp code)

/-- The finite numbers that a line has behind a letter, in order. -/
def given (letter : Char) (line : List Char) : List Float :=
  (words line).filterMap fun w => if w.letter = letter then finite? w.number else none

def isRapid (line : List Char) : Bool := (given 'G' line).any (· == 0)

def isLinear (line : List Char) : Bool := (given 'G' line).any (· == 1)

def isMotion (line : List Char) : Bool := isRapid line || isLinear line

def firstX (line : List Char) : Option Float := (given 'X' line).head?

def firstY (line : List Char) : Option Float := (given 'Y' line).head?

/-- A feed below zero is none. -/
def firstFeed (line : List Char) : Option Float := (given 'F' line).find? fun feed => 0 ≤ feed

/-- What the latest motion line that gives a value gives, zero if there is none. -/
def latest (give : List Char → Option Float) (lines : List (List Char)) : Float :=
  ((lines.filter isMotion).reverse.findSome? give).getD 0

/-- The move of the last of some lines, a motion line. -/
def moveAt (lines : List (List Char)) (line : List Char) (number : Nat) : Move Float where
  kind := if isRapid line then .rapid else .linear
  x := latest firstX lines
  y := latest firstY lines
  feed := latest firstFeed lines
  line := number

/-! From tokens to words. -/

/-- The number of a token of this kind. -/
def Token.given? (kind : TokenKind) (t : Token) : Option Float :=
  if t.kind = kind then t.number? else none

/-- The number of a word of this kind. -/
def Word.given? (kind : TokenKind) (w : Word) : Option Float :=
  if TokenKind.ofLetter w.letter = kind then finite? w.number else none

theorem given?_comment {kind : TokenKind} (word : kind ≠ .comment) {t : Token}
    (comment : t.kind = .comment) : t.given? kind = none := by
  rw [Token.given?, comment, if_neg word.symm]

theorem placed_filterMap {β : Type} (number : Int) (start : Nat) (ps : List Piece)
    {g : Token → Option β} {h : Word → Option β} (comment : ∀ t, t.kind = .comment → g t = none)
    (word : ∀ w start stop,
      g ⟨.ofLetter w.letter, w.number, number, start, stop, [w.letter]⟩ = h w) :
    ((Piece.placed start ps).filterMap fun (start, p) => Token.ofPiece? number start p).filterMap
        g = (ps.filterMap Piece.word?).filterMap h := by
  have each (start : Nat) (p : Piece) :
      (Token.ofPiece? number start p).bind g = p.word?.bind h := by
    cases p with
    | blank c => rfl
    | junk text => rfl
    | word w => exact word w _ _
    | comment text closed => exact comment _ rfl
  conv_rhs => rw [← placed_pieces start ps, List.filterMap_filterMap, List.filterMap_map]
  rw [List.filterMap_filterMap]
  exact List.filterMap_congr fun placed _ => each placed.1 placed.2

/-- What is taken from the tokens of a line, comments aside, can be taken from its words. -/
theorem tokens_filterMap {β : Type} (number : Int) (line : List Char) {g : Token → Option β}
    {h : Word → Option β} (comment : ∀ t, t.kind = .comment → g t = none)
    (word : ∀ w start stop,
      g ⟨.ofLetter w.letter, w.number, number, start, stop, [w.letter]⟩ = h w) :
    (tokens number line).filterMap g = (words line).filterMap h := by
  cases code : isCommentLine (LineParts.ofLine line).stripped with
  | true =>
    rw [tokens_commentLine number code, words_of_comment code, List.filterMap_cons, comment _ rfl]
    rfl
  | false =>
    have trailing : ((LineParts.ofLine line).trailingToken? number).toList.filterMap g = [] := by
      rw [List.filterMap_eq_nil_iff]
      intro t member
      exact comment t (trailingToken?_start (Option.mem_toList.mp member)).1
    rw [tokens_eq number code, List.filterMap_append, trailing, List.append_nil, LineParts.pieces,
      placed_filterMap number _ _ comment word, words_of_code code]
    rfl

/-- The numbers of a kind among the tokens are those of the words, whatever number the line has. -/
theorem given_tokens (number : Int) (line : List Char) {kind : TokenKind}
    (word : kind ≠ .comment) :
    (tokens number line).filterMap (Token.given? kind) =
      (words line).filterMap (Word.given? kind) :=
  tokens_filterMap number line (fun _ => given?_comment word) fun _ _ _ => rfl

theorem given_eq (number : Int) (line : List Char) {letter : Char} {kind : TokenKind}
    (word : kind ≠ .comment) (same : ∀ c, TokenKind.ofLetter c = kind ↔ c = letter) :
    given letter line = (tokens number line).filterMap (Token.given? kind) := by
  rw [given_tokens number line word, given]
  exact List.filterMap_congr fun w _ => by simp only [Word.given?, same]

/-- The kinds of words that a block takes up, by their letters. -/
theorem ofLetter_eq_iff (c : Char) : (TokenKind.ofLetter c = .g ↔ c = 'G') ∧
    (TokenKind.ofLetter c = .x ↔ c = 'X') ∧ (TokenKind.ofLetter c = .y ↔ c = 'Y') ∧
    (TokenKind.ofLetter c = .f ↔ c = 'F') := by
  unfold TokenKind.ofLetter
  split_ifs <;> simp_all

/-- The numbers behind the letters that a block takes up, among the tokens of the line. -/
theorem given_kinds (number : Int) (line : List Char) :
    given 'G' line = (tokens number line).filterMap (Token.given? .g) ∧
      given 'X' line = (tokens number line).filterMap (Token.given? .x) ∧
      given 'Y' line = (tokens number line).filterMap (Token.given? .y) ∧
      given 'F' line = (tokens number line).filterMap (Token.given? .f) :=
  ⟨given_eq number line (by decide) fun c => (ofLetter_eq_iff c).1,
    given_eq number line (by decide) fun c => (ofLetter_eq_iff c).2.1,
    given_eq number line (by decide) fun c => (ofLetter_eq_iff c).2.2.1,
    given_eq number line (by decide) fun c => (ofLetter_eq_iff c).2.2.2⟩

/-! The words of written lines. -/

theorem words_line (w : WrittenWord) (ws : List WrittenWord) {tail : List Char}
    (allowed : Tail tail) :
    words (wordsText w ws ++ tail) = (w :: ws).map WrittenWord.word := by
  obtain ⟨k, code⟩ := code_line w ws allowed
  have stripped : (LineParts.ofLine (wordsText w ws ++ tail)).stripped = wordsText w ws ++ tail :=
    trim_line w ws allowed
  simp only [words, stripped, isCommentLine_line, Bool.false_eq_true, if_false]
  rw [code, split_wordsText, wordPieces_filterMap Piece.word? rfl, ← List.filterMap_eq_map]
  rfl

theorem words_blank : words [] = [] := by
  change (Piece.split []).filterMap Piece.word? = []
  rw [Piece.split]
  rfl

/-- A line that begins as a comment has no words. -/
theorem words_comment {c : Char} (opens : c = '(' ∨ c = ';' ∨ c = '%') (rest : List Char) :
    words (c :: rest) = [] := by
  have visible : Text.isBlank c = false := by rcases opens with rfl | rfl | rfl <;> decide
  obtain ⟨rest', trimmed⟩ := Text.trim_cons visible rest
  refine words_of_comment ?_
  rw [trimmed]
  rcases opens with rfl | rfl | rfl <;> rfl

/-! The block of a line. -/

namespace Block
variable {b : Block}

/-- What a block holds once it has taken words with these numbers behind G, X, Y and F. -/
structure Filled (b : Block) (codes xs ys feeds : List Float) (c : Block) : Prop where
  line : c.line = b.line
  gCodes : c.gCodes = b.gCodes ++ codes
  x : c.x = b.x.or xs.head?
  y : c.y = b.y.or ys.head?
  f : c.f = b.f.or (feeds.find? fun feed => 0 ≤ feed)

theorem Filled.refl (b : Block) : b.Filled [] [] [] [] b := by
  constructor <;> simp

theorem Filled.append {c d : Block} {codes xs ys feeds codes' xs' ys' feeds' : List Float}
    (first : b.Filled codes xs ys feeds c) (second : c.Filled codes' xs' ys' feeds' d) :
    b.Filled (codes ++ codes') (xs ++ xs') (ys ++ ys') (feeds ++ feeds') d where
  line := second.line.trans first.line
  gCodes := by rw [second.gCodes, first.gCodes, List.append_assoc]
  x := by rw [second.x, first.x, List.head?_append, Option.or_assoc]
  y := by rw [second.y, first.y, List.head?_append, Option.or_assoc]
  f := by rw [second.f, first.f, List.find?_append, Option.or_assoc]

/-- The first usable word of a letter fills its field, and later ones leave it. -/
theorem take_filled (t : Token) : b.Filled (t.given? .g).toList (t.given? .x).toList
    (t.given? .y).toList (t.given? .f).toList (b.take t).1 := by
  unfold Token.given? take
  cases shape : t.kind with
  | other | comment => exact .refl b
  | g =>
    cases t.number? with
    | none => exact .refl b
    | some value => constructor <;> simp [takeValue, shape]
  | x =>
    cases t.number? with
    | none => exact .refl b
    | some value => cases present : b.x <;> constructor <;> simp [takeValue, shape, fill, present]
  | y =>
    cases t.number? with
    | none => exact .refl b
    | some value => cases present : b.y <;> constructor <;> simp [takeValue, shape, fill, present]
  | f =>
    cases number : t.number? with
    | none => exact .refl b
    | some value =>
      have finite : Binary64.isFinite value = true := (finite?_eq_some_iff.mp number).2
      have sign : ¬ value < 0 ↔ 0 ≤ value := Binary64.not_lt_iff finite (by decide)
      by_cases negative : value < 0
      · have below : ¬ 0 ≤ value := fun above => sign.mpr above negative
        constructor <;> simp [takeValue, shape, negative, below]
      · have above : 0 ≤ value := sign.mp negative
        cases present : b.f <;> constructor <;>
          simp [takeValue, shape, fill, negative, above, present]

theorem takeAll_filled (ts : List Token) :
    b.Filled (ts.filterMap (Token.given? .g)) (ts.filterMap (Token.given? .x))
      (ts.filterMap (Token.given? .y)) (ts.filterMap (Token.given? .f)) (b.takeAll ts).1 := by
  induction ts generalizing b with
  | nil => exact .refl b
  | cons t ts ih =>
    have cons (kind : TokenKind) : (t :: ts).filterMap (Token.given? kind) =
        (t.given? kind).toList ++ ts.filterMap (Token.given? kind) := by
      rw [List.filterMap_cons]
      cases t.given? kind <;> rfl
    simp only [cons, takeAll]
    exact (take_filled t).append ih

/-- What the block of a line holds. A line without words has none. -/
theorem ofLine_filled (number : Int) (line : List Char) :
    ((ofLine number line).1 = none ∧ given 'G' line = []) ∨
      ∃ count b, (ofLine number line).1 = some b ∧ (empty number count).Filled (given 'G' line)
        (given 'X' line) (given 'Y' line) (given 'F' line) b := by
  obtain ⟨g, x, y, f⟩ := given_kinds number line
  rw [g, x, y, f]
  unfold ofLine
  simp only
  split
  · rename_i comments
    refine .inl ⟨rfl, List.filterMap_eq_nil_iff.mpr fun t member => ?_⟩
    exact given?_comment (by decide) (by simpa using List.all_eq_true.mp comments t member)
  · exact .inr ⟨_, _, rfl, takeAll_filled _⟩

end Block

/-! The effect of a line, whatever stands in it. -/

def lineEffect (line : List Char) : Effect :=
  if isMotion line then
    .motion (if isRapid line then .rapid else .linear) (firstX line) (firstY line) (firstFeed line)
  else .silent

theorem kind?_eq {b : Block} (line : List Char) (codes : b.gCodes = given 'G' line) :
    b.kind? = if isMotion line then some (if isRapid line then .rapid else .linear) else none := by
  rw [Block.kind?, codes, ← isRapid, ← isLinear, isMotion]
  cases isRapid line <;> cases isLinear line <;> rfl

theorem lineEffect_of (number : Int) (line : List Char) :
    (lineEffect line).Of number (Block.ofLine number line).1 := by
  unfold lineEffect
  rcases Block.ofLine_filled number line with ⟨none, silent⟩ | ⟨count, b, some, filled⟩
  · have still : isMotion line = false := by rw [isMotion, isRapid, isLinear, silent]; rfl
    rw [none, still]
    rintro b ⟨⟩
  · have kind := kind?_eq line filled.gCodes
    rw [some]
    cases motion : isMotion line with
    | false =>
      rintro c ⟨⟩
      rw [kind, motion]
      rfl
    | true =>
      rw [motion] at kind
      exact ⟨b, rfl, filled.line, kind, filled.x, filled.y, filled.f⟩

theorem parse_run (text : List Char) : (Program.parse text).moves =
    Modal.start.run 1 ((Text.splitLines text).map lineEffect) := by
  apply Modal.moves_eq_run
  rw [List.forall₂_map_right_iff, List.forall₂_same]
  exact fun line _ number => lineEffect_of number line

/-! Looking back. -/

theorem latest_concat (give : List Char → Option Float) (lines : List (List Char))
    (line : List Char) : latest give (lines ++ [line]) =
      if isMotion line then (give line).getD (latest give lines) else latest give lines := by
  unfold latest
  rw [List.filter_append]
  cases motion : isMotion line with
  | false => simp [motion]
  | true =>
    cases given : give line <;> simp [motion, given]

theorem afterEffects_concat (lines : List (List Char)) (line : List Char) :
    Modal.start.afterEffects ((lines ++ [line]).map lineEffect) =
      (Modal.start.afterEffects (lines.map lineEffect)).afterEffect (lineEffect line) := by
  simp [Modal.afterEffects]

/-- The values carried along are those found by looking back. -/
theorem afterEffects_latest (lines : List (List Char)) :
    Modal.start.afterEffects (lines.map lineEffect) =
      ⟨latest firstX lines, latest firstY lines, latest firstFeed lines⟩ := by
  induction lines using List.reverseRecOn with
  | nil => rfl
  | append_singleton lines line ih =>
    rw [afterEffects_concat, ih, lineEffect]
    simp only [latest_concat]
    cases isMotion line <;> rfl

/-- The run over the lines that follow some others. -/
theorem run_lineEffects (before rest : List (List Char)) :
    (Modal.start.afterEffects (before.map lineEffect)).run (before.length + 1)
        (rest.map lineEffect) =
      (rest.zipIdx (before.length + 1)).filterMap fun (line, number) =>
        if isMotion line then some (moveAt ((before ++ rest).take number) line number) else none := by
  induction rest generalizing before with
  | nil => rfl
  | cons line rest ih =>
    have following := ih (before ++ [line])
    have here : (before ++ line :: rest).take (before.length + 1) = before ++ [line] := by
      simp [List.take_append]
    have carried := afterEffects_latest (before ++ [line])
    rw [afterEffects_concat] at following carried
    rw [List.append_assoc, List.singleton_append, List.length_append, List.length_singleton]
      at following
    push_cast at following
    rw [List.map_cons, List.zipIdx_cons, List.filterMap_cons]
    generalize Modal.start.afterEffects (before.map lineEffect) = m at following carried
    cases motion : isMotion line with
    | false =>
      have effect : lineEffect line = .silent := by rw [lineEffect, motion]; rfl
      rw [effect] at following ⊢
      simp only [motion, Bool.false_eq_true, if_false]
      rw [Modal.run]
      exact following
    | true =>
      have effect : lineEffect line = .motion (if isRapid line then .rapid else .linear)
          (firstX line) (firstY line) (firstFeed line) := by rw [lineEffect, motion]; rfl
      rw [effect] at following carried ⊢
      change m.advance _ _ _ = _ at carried
      change Modal.run (m.advance _ _ _) _ _ = _ at following
      simp only [motion, if_true, here]
      rw [Modal.run, carried]
      rw [carried] at following
      rw [following]
      rfl

/-- The moves of a program are those that looking back from its lines finds, a move for each line
with G0 or G1, in order and with the number of the line. Other lines change none of them. -/
theorem parse_looks_back (text : List Char) :
    (Program.parse text).moves = (((Text.splitLines text).zipIdx 1).filterMap fun (line, number) =>
      if isMotion line then some (moveAt ((Text.splitLines text).take number) line number)
      else none) ∧
    ∀ other, List.Forall₂ (fun line line' => line = line' ∨ isMotion line = false ∧
        isMotion line' = false) (Text.splitLines text) (Text.splitLines other) →
      (Program.parse other).moves = (Program.parse text).moves := by
  constructor
  · rw [parse_run]
    exact run_lineEffects [] (Text.splitLines text)
  · intro other alike
    have effects : (Text.splitLines text).map lineEffect =
        (Text.splitLines other).map lineEffect := by
      rw [← List.forall₂_eq_eq_eq, List.forall₂_map_left_iff, List.forall₂_map_right_iff]
      refine alike.imp fun line line' same => ?_
      rcases same with rfl | ⟨still, still'⟩
      · rfl
      · rw [lineEffect, lineEffect, still, still']
        rfl
    rw [parse_run, parse_run, effects]

end Toolpath.Gcode
