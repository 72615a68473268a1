import Mathlib
import Toolpath.Proofs.FrontEnd.Formatting

/-! The colours of a line are those of its tokens. Colouring looks for words everywhere in the code and
lays the comments over them; reading goes from piece to piece. A place of the code has the look of
its piece, whose token lies over it, and around the code only comments are coloured. The colour of a place is
given to the unit with its number, which belongs to another character where one before it has two units. -/
namespace Toolpath.Highlight
open Gcode

/-! The look of a place of the code is that of its piece. -/

def pieceLook? : Piece → Option TextLook
  | .word w => wordLook? w
  | .comment _ _ => some commentLook
  | .blank _ => none
  | .junk _ => none

def wordSpan? (found : Nat × Word) : Option TextSpan :=
  (wordLook? found.2).map fun look => ⟨found.1, found.2.text.length, look⟩

theorem wordSpan?_within {found : Nat × Piece} {span : TextSpan}
    (member : span ∈ (pieceWords found).filterMap wordSpan?) :
    found.1 ≤ span.start ∧ span.start + span.count ≤ found.1 + found.2.length := by
  obtain ⟨⟨start, w⟩, word, spanned⟩ := List.mem_filterMap.mp member
  obtain ⟨look, _, rfl⟩ := Option.map_eq_some_iff.mp spanned
  obtain ⟨place, p⟩ := found
  cases p with
  | blank c => cases word
  | junk text => cases word
  | word v =>
    cases List.mem_singleton.mp word
    exact ⟨le_rfl, le_rfl⟩
  | comment text closed =>
    have within := words_within word
    dsimp only at within ⊢
    simp only [Piece.length, Piece.text, List.length_append, List.length_cons]
    omega

theorem pieceComments_within {found : Nat × Piece} {span : TextSpan}
    (member : span ∈ pieceComments found) :
    found.1 ≤ span.start ∧ span.start + span.count ≤ found.1 + found.2.length := by
  obtain ⟨place, p⟩ := found
  cases p with
  | blank c => cases member
  | junk text => cases member
  | word w => cases member
  | comment text closed =>
    cases List.mem_singleton.mp member
    exact ⟨le_rfl, le_rfl⟩

theorem lookAt_piece {found : Nat × Piece} {place : Nat} (covers : Piece.Covers place found) :
    (lookAt (pieceComments found) place).or
      (lookAt ((pieceWords found).filterMap wordSpan?) place) = pieceLook? found.2 := by
  obtain ⟨start, p⟩ := found
  cases p with
  | blank c => rfl
  | junk text => rfl
  | comment text closed =>
    have spanned : TextSpan.Covers ⟨start, (Piece.comment text closed).length, commentLook⟩ place :=
      covers
    rw [pieceComments, lookAt_cons, if_pos spanned]
    rfl
  | word w =>
    change (none : Option TextLook).or (lookAt ([(start, w)].filterMap wordSpan?) place) = wordLook? w
    rw [Option.none_or]
    cases look : wordLook? w with
    | none => simp [wordSpan?, look, lookAt]
    | some look' =>
      have covers : start ≤ place ∧ place < start + w.text.length := covers
      simp [wordSpan?, look, lookAt, TextSpan.Covers, covers]

section
variable {line : List Char} {place : Nat}

/-- The span over what follows the code, if anything does. -/
def trailingSpans (line : List Char) : List TextSpan :=
  let trailing := line.length - (LineParts.front line).length
  if trailing = 0 then [] else [⟨(LineParts.front line).length, trailing, commentLook⟩]

theorem mem_trailingSpans {span : TextSpan} : span ∈ trailingSpans line ↔
    (LineParts.front line).length < line.length ∧ span = ⟨(LineParts.front line).length,
      line.length - (LineParts.front line).length, commentLook⟩ := by
  unfold trailingSpans
  dsimp only
  split
  · rename_i nothing
    exact iff_of_false List.not_mem_nil (by omega)
  · rename_i something
    rw [List.mem_singleton]
    exact (and_iff_right (by omega)).symm

theorem spans_comment (comment : isCommentLine (LineParts.ofLine line).stripped = true) :
    spans line = [⟨0, line.length, commentLook⟩] :=
  if_pos ((isCommentLine_trimStart line).trans comment)

theorem spans_code (code : isCommentLine (LineParts.ofLine line).stripped = false) :
    spans line = trailingSpans line ++ wordSpans (LineParts.front line) ++
      commentSpans 0 (LineParts.front line) := by
  have trimmed : isCommentLine (Text.trimStart line) = false :=
    (isCommentLine_trimStart line).trans code
  rw [spans, trimmed]
  rfl

/-- The blanks around the code hold no words, so colouring starts from its pieces as reading does. -/
theorem wordSpans_front (line : List Char) : wordSpans (LineParts.front line) =
    (LineParts.ofLine line).pieces.flatMap fun found => (pieceWords found).filterMap wordSpan? := by
  obtain ⟨before, after, whole, start, leading, ending, _⟩ := LineParts.code_around line
  have found : words 0 (LineParts.front line) =
      words (LineParts.ofLine line).start (LineParts.ofLine line).code := by
    rw [whole, List.append_assoc, words_blanks leading, words_append_blanks ending, start,
      Nat.zero_add]
  change (words 0 (LineParts.front line)).filterMap wordSpan? = _
  rw [found, words_split, List.filterMap_flatMap]
  rfl

theorem lookAt_comments_front (inside : (LineParts.ofLine line).HoldsCode place) :
    lookAt (commentSpans 0 (LineParts.front line)) place =
      lookAt ((LineParts.ofLine line).pieces.flatMap pieceComments) place := by
  obtain ⟨before, after, whole, start, leading, ending, _⟩ := LineParts.code_around line
  have clear : '(' ∉ before := fun member => absurd (leading _ member) (by decide)
  rw [whole, List.append_assoc, commentSpans_skipped clear, start, Nat.zero_add,
    lookAt_commentSpans_blanks ending inside.2, commentSpans_split]
  rfl

/-- The look of a place of the code. -/
theorem lookAt_code (code : isCommentLine (LineParts.ofLine line).stripped = false)
    (inside : (LineParts.ofLine line).HoldsCode place) : lookAt (spans line) place =
      ((LineParts.ofLine line).pieceAt? place).bind fun found => pieceLook? found.2 := by
  obtain ⟨before, after, whole, start, _⟩ := LineParts.code_around line
  have length := congrArg List.length whole
  simp only [List.length_append] at length
  have trailing : lookAt (trailingSpans line) place = none := by
    refine lookAt_eq_none fun span member covers => ?_
    have behind := covers.1
    have ahead := inside.2
    rw [(mem_trailingSpans.mp member).2] at behind
    dsimp only at behind
    omega
  obtain ⟨found, here⟩ := LineParts.exists_pieceAt? inside
  have word := lookAt_placed (fun _ _ => wordSpan?_within) (LineParts.ofLine line).start
    (Piece.split (LineParts.ofLine line).code) place
  have comment := lookAt_placed (fun _ _ => pieceComments_within) (LineParts.ofLine line).start
    (Piece.split (LineParts.ofLine line).code) place
  rw [LineParts.pieceAt?] at here
  rw [here] at word comment
  rw [spans_code code, lookAt_append, lookAt_append, trailing, Option.or_none, wordSpans_front,
    lookAt_comments_front inside, LineParts.pieces, word, comment, LineParts.pieceAt?, here]
  exact lookAt_piece (Piece.at?_eq_some_iff.mp here).2

/-- Around the code there are the looks of comments and none besides. -/
theorem lookAt_around (code : isCommentLine (LineParts.ofLine line).stripped = false)
    (outside : ¬ (LineParts.ofLine line).HoldsCode place) {look : TextLook}
    (laid : lookAt (spans line) place = some look) : look = commentLook := by
  obtain ⟨span, member, covers, rfl⟩ := exists_of_lookAt laid
  rw [spans_code code, List.mem_append, List.mem_append] at member
  rcases member with (trailing | word) | comment
  · rw [(mem_trailingSpans.mp trailing).2]
  · rw [wordSpans_front] at word
    obtain ⟨found, placed, given⟩ := List.mem_flatMap.mp word
    have within := wordSpan?_within given
    exact absurd (LineParts.holdsCode_of_covers placed
      ⟨within.1.trans covers.1, covers.2.trans_le within.2⟩) outside
  · exact commentSpans_look comment

/-- Behind the first semicolon everything is a comment. -/
theorem lookAt_trailing (code : isCommentLine (LineParts.ofLine line).stripped = false)
    (trailing : (LineParts.ofLine line).trailing ≠ none)
    (low : (LineParts.ofLine line).start + (LineParts.ofLine line).code.length ≤ place)
    (high : place < (LineParts.ofLine line).stop) : lookAt (spans line) place = some commentLook := by
  obtain ⟨before, after, whole, start, _, _, last⟩ := LineParts.code_around line
  have length := congrArg List.length whole
  have beyond := LineParts.stop_le_length line
  simp only [last trailing, List.length_append, List.length_nil] at length
  have longer : (LineParts.front line).length < line.length := by omega
  have laid := List.mem_append_left (wordSpans (LineParts.front line))
    (mem_trailingSpans.mpr ⟨longer, rfl⟩)
  have member := List.mem_append_left (commentSpans 0 (LineParts.front line)) laid
  rw [← spans_code code] at member
  have covers : TextSpan.Covers ⟨(LineParts.front line).length,
      line.length - (LineParts.front line).length, commentLook⟩ place := by
    constructor <;> dsimp only <;> omega
  obtain ⟨look, here⟩ := lookAt_of_covers member covers
  have outside : ¬ (LineParts.ofLine line).HoldsCode place := fun inside => by
    have ahead := inside.2
    omega
  rw [here, lookAt_around code outside here]

end

/-! Looks and tokens. -/

/-- The look of a token that is no comment: rapid and linear movements have looks of their own among
the G words, and other words have the look of their letter, if it has one. -/
inductive Shows (t : Token) : TextLook → Prop where
  | rapid {value : Float} : t.letter = ['G'] → t.number? = some value → (value == 0) = true →
      Shows t rapidLook
  | linear {value : Float} : t.letter = ['G'] → t.number? = some value → (value == 1) = true →
      Shows t linearLook
  | still {look : TextLook} : t.letter = ['G'] →
      (∀ value, t.number? = some value → (value == 0) = false ∧ (value == 1) = false) →
      letterLook? 'G' = some look → Shows t look
  | letter {letter : Char} {look : TextLook} : t.letter = [letter] → letter ≠ 'G' →
      letterLook? letter = some look → Shows t look

/-- The looks of rapid and linear movements, comments and letters are all different. -/
theorem letterLook?_ne {letter : Char} {look : TextLook} (some : letterLook? letter = some look) :
    look ≠ rapidLook ∧ look ≠ linearLook ∧ look ≠ commentLook := by
  unfold letterLook? at some
  split_ifs at some <;> cases some <;> decide

theorem shows_rapid_iff {t : Token} : Shows t rapidLook ↔
    t.letter = ['G'] ∧ ∃ value, t.number? = some value ∧ (value == 0) = true := by
  constructor
  · intro shows
    generalize look : rapidLook = look' at shows
    cases shows with
    | rapid letter number zero => exact ⟨letter, _, number, zero⟩
    | linear _ _ _ => exact absurd look (by decide)
    | still _ _ some => exact absurd look.symm (letterLook?_ne some).1
    | letter _ _ some => exact absurd look.symm (letterLook?_ne some).1
  · rintro ⟨letter, value, number, zero⟩
    exact .rapid letter number zero

theorem shows_linear_iff {t : Token} : Shows t linearLook ↔
    t.letter = ['G'] ∧ ∃ value, t.number? = some value ∧ (value == 1) = true := by
  constructor
  · intro shows
    generalize look : linearLook = look' at shows
    cases shows with
    | rapid _ _ _ => exact absurd look.symm (by decide)
    | linear letter number one => exact ⟨letter, _, number, one⟩
    | still _ _ some => exact absurd look.symm (letterLook?_ne some).2.1
    | letter _ _ some => exact absurd look.symm (letterLook?_ne some).2.1
  · rintro ⟨letter, value, number, one⟩
    exact .linear letter number one

theorem wordLook?_number {w : Word} {value : Float} (letter : w.letter = 'G')
    (read : Decimal.float? w.number = some value) :
    wordLook? w = if value == 0 then some rapidLook else if value == 1 then some linearLook
      else letterLook? 'G' := by
  rw [wordLook?, letter, read]
  rfl

theorem wordLook?_letter {w : Word} (other : w.letter ≠ 'G' ∨ Decimal.float? w.number = none) :
    wordLook? w = letterLook? w.letter := by
  unfold wordLook?
  split
  · rename_i letter read
    rcases other with other | none
    · exact absurd letter other
    · rw [none] at read
      cases read
  · rfl

/-- What is not finite is neither zero nor one. -/
theorem number?_of_beq {t : Token} {value c : Float} (read : Decimal.float? t.value = some value)
    (finite : Binary64.isFinite c = true) (same : (value == c) = true) : t.number? = some value :=
  Decimal.finite?_eq_some_iff.mpr ⟨read, Binary64.isFinite_of_beq finite same⟩

theorem not_zero_of_one {value : Float} (one : (value == 1) = true) : (value == 0) = false := by
  have finiteOne : Binary64.isFinite 1 = true := by decide
  have finiteZero := Binary64.isFinite_zero
  have finite := Binary64.isFinite_of_beq finiteOne one
  rw [Bool.eq_false_iff]
  intro zero
  have both := Binary64.beq_of_beq finiteZero finiteOne finite
    (Binary64.beq_symm finite finiteZero zero) (Binary64.beq_symm finite finiteOne one)
  exact absurd both (by decide)

theorem wordLook?_eq_some_iff {w : Word} {t : Token} (letter : t.letter = [w.letter])
    (value : t.value = w.number) {look : TextLook} : wordLook? w = some look ↔ Shows t look := by
  have finiteZero := Binary64.isFinite_zero
  have finiteOne : Binary64.isFinite 1 = true := by decide
  have onlyG {c : Char} (this : t.letter = [c]) : w.letter = c := by
    rw [letter] at this
    exact List.singleton_inj.mp this
  constructor
  · intro looked
    by_cases g : w.letter = 'G'
    · have letter : t.letter = ['G'] := by rw [letter, g]
      cases read : Decimal.float? w.number with
      | none =>
        rw [wordLook?_letter (.inr read), g] at looked
        refine .still letter (fun v number => ?_) looked
        have again := (Decimal.finite?_eq_some_iff.mp number).1
        rw [value, read] at again
        cases again
      | some v =>
        rw [wordLook?_number g read] at looked
        rw [← value] at read
        by_cases zero : (v == 0) = true
        · rw [if_pos zero] at looked
          cases looked
          exact .rapid letter (number?_of_beq read finiteZero zero) zero
        · rw [if_neg zero] at looked
          by_cases one : (v == 1) = true
          · rw [if_pos one] at looked
            cases looked
            exact .linear letter (number?_of_beq read finiteOne one) one
          · rw [if_neg one] at looked
            refine .still letter (fun v' number => ?_) looked
            have same := (Decimal.finite?_eq_some_iff.mp number).1
            rw [read] at same
            cases same
            exact ⟨Bool.eq_false_iff.mpr zero, Bool.eq_false_iff.mpr one⟩
    · rw [wordLook?_letter (.inl g)] at looked
      exact .letter letter g looked
  · rintro (⟨g, number, zero⟩ | ⟨g, number, one⟩ | ⟨g, others, some⟩ | ⟨other, notG, some⟩)
    · have read := (Decimal.finite?_eq_some_iff.mp number).1
      rw [value] at read
      rw [wordLook?_number (onlyG g) read, if_pos zero]
    · have read := (Decimal.finite?_eq_some_iff.mp number).1
      rw [value] at read
      rw [wordLook?_number (onlyG g) read, not_zero_of_one one, if_pos one]
      rfl
    · cases read : Decimal.float? w.number with
      | none => rw [wordLook?_letter (.inr read), onlyG g, some]
      | some v =>
        have zero : ¬ (v == 0) = true := fun zero => by
          rw [← value] at read
          rw [(others v (number?_of_beq read finiteZero zero)).1] at zero
          cases zero
        have one : ¬ (v == 1) = true := fun one => by
          rw [← value] at read
          rw [(others v (number?_of_beq read finiteOne one)).2] at one
          cases one
        rw [wordLook?_number (onlyG g) read, if_neg zero, if_neg one, some]
    · rw [wordLook?_letter (.inl (by rwa [onlyG other])), onlyG other, some]

theorem Shows.ne_comment {t : Token} {look : TextLook} (shows : Shows t look) :
    look ≠ commentLook := by
  cases shows with
  | rapid _ _ _ => decide
  | linear _ _ _ => decide
  | still _ _ some => exact (letterLook?_ne some).2.2
  | letter _ _ some => exact (letterLook?_ne some).2.2

theorem Shows.lettered {t : Token} {look : TextLook} (shows : Shows t look) : t.letter ≠ [] := by
  cases shows <;> simp_all

theorem pieceLook?_shows (number : Int) {found : Nat × Piece} {look : TextLook}
    (other : look ≠ commentLook) : pieceLook? found.2 = some look ↔
      ∃ t ∈ Token.ofPiece? number found.1 found.2, Shows t look := by
  obtain ⟨start, p⟩ := found
  cases p with
  | blank c => simp [pieceLook?, Token.ofPiece?]
  | junk text => simp [pieceLook?, Token.ofPiece?]
  | comment text closed =>
    constructor
    · rintro ⟨⟩
      exact absurd rfl other
    · rintro ⟨t, ⟨⟩, shows⟩
      exact absurd rfl shows.lettered
  | word w =>
    constructor
    · intro looked
      exact ⟨_, rfl, (wordLook?_eq_some_iff rfl rfl).mp looked⟩
    · rintro ⟨t, ⟨⟩, shows⟩
      exact (wordLook?_eq_some_iff rfl rfl).mpr shows

theorem pieceLook?_comment (number : Int) {found : Nat × Piece} :
    pieceLook? found.2 = some commentLook ↔
      ∃ t ∈ Token.ofPiece? number found.1 found.2, t.kind = .comment := by
  obtain ⟨start, p⟩ := found
  cases p with
  | blank c => simp [pieceLook?, Token.ofPiece?]
  | junk text => simp [pieceLook?, Token.ofPiece?]
  | comment text closed => exact ⟨fun _ => ⟨_, rfl, rfl⟩, fun _ => rfl⟩
  | word w =>
    constructor
    · intro looked
      let t : Token := ⟨.ofLetter w.letter, w.number, number, start, start, [w.letter]⟩
      exact absurd rfl ((wordLook?_eq_some_iff (t := t) rfl rfl).mp looked).ne_comment
    · rintro ⟨t, ⟨⟩, kind⟩
      exact absurd kind (Block.ofLetter_ne_comment w.letter)

section
variable {line : List Char} {place : Nat}

/-- Wherever a place has another look than that of a comment, a word token over it shows that look. -/
theorem lookAt_eq_iff (number : Int) {look : TextLook} (other : look ≠ commentLook) :
    lookAt (spans line) place = some look ↔
      ∃ t ∈ tokens number line, t.Covers place ∧ Shows t look := by
  cases code : isCommentLine (LineParts.ofLine line).stripped with
  | true =>
    rw [spans_comment code, tokens_commentLine number code]
    constructor
    · intro laid
      obtain ⟨span, member, _, rfl⟩ := exists_of_lookAt laid
      rw [List.mem_singleton.mp member] at other
      exact absurd rfl other
    · rintro ⟨t, member, _, shows⟩
      rw [List.mem_singleton.mp member] at shows
      exact absurd rfl shows.lettered
  | false =>
    have trailing : ¬ ∃ t ∈ (LineParts.ofLine line).trailingToken? number,
        t.Covers place ∧ Shows t look := by
      rintro ⟨t, token, _, shows⟩
      exact shows.lettered (trailingToken?_start token).2.1
    rw [covering_iff code, or_iff_left trailing]
    by_cases inside : (LineParts.ofLine line).HoldsCode place
    · rw [lookAt_code code inside, Option.bind_eq_some_iff]
      simp only [pieceLook?_shows number other, Option.mem_def]
    · constructor
      · intro laid
        exact absurd (lookAt_around code inside laid) other
      · rintro ⟨found, here, _⟩
        obtain ⟨member, covers⟩ := Piece.at?_eq_some_iff.mp here
        exact absurd (LineParts.holdsCode_of_covers member covers) inside

/-- A place that is not blank has the look of a comment if it lies in one. -/
theorem lookAt_comment_iff (number : Int) {c : Char} (here : (line)[place]? = some c)
    (visible : Text.isBlank c = false) :
    lookAt (spans line) place = some commentLook ↔
      ∃ t ∈ tokens number line, t.Covers place ∧ t.kind = .comment := by
  have inside := LineParts.visible_inside here visible
  cases code : isCommentLine (LineParts.ofLine line).stripped with
  | true =>
    have beyond := inside.2.trans_le (LineParts.stop_le_length line)
    have covers : TextSpan.Covers ⟨0, line.length, commentLook⟩ place :=
      ⟨Nat.zero_le _, by dsimp only; omega⟩
    rw [spans_comment code, tokens_commentLine number code, lookAt_cons, if_pos covers]
    simp [lookAt, Token.Covers, inside]
  | false =>
    rw [covering_iff code]
    by_cases within : place < (LineParts.ofLine line).start + (LineParts.ofLine line).code.length
    · have trailing : ¬ ∃ t ∈ (LineParts.ofLine line).trailingToken? number,
          t.Covers place ∧ t.kind = .comment := by
        rintro ⟨t, token, covers, _⟩
        have behind := covers.1
        rw [(trailingToken?_start token).2.2.1] at behind
        omega
      rw [or_iff_left trailing, lookAt_code code ⟨inside.1, within⟩, Option.bind_eq_some_iff]
      simp only [pieceLook?_comment number, Option.mem_def]
    · have broken : (LineParts.ofLine line).trailing ≠ none := by
        intro unbroken
        have stops := LineParts.stop_of_unbroken unbroken
        omega
      obtain ⟨text, some⟩ := Option.ne_none_iff_exists'.mp broken
      obtain ⟨t, token⟩ : ∃ t, (LineParts.ofLine line).trailingToken? number = .some t :=
        ⟨_, congrArg (Option.map _) some⟩
      obtain ⟨kind, _, start, stop⟩ := trailingToken?_start token
      have covers : t.Covers place := by
        rw [Token.Covers, start, stop]
        omega
      exact iff_of_true (lookAt_trailing code broken (by omega) inside.2) (.inr ⟨t, token, covers, kind⟩)

end

/-- Some place has the look of the movements that this stands for if the line has such a G word. -/
theorem exists_lookAt_iff (number : Int) (line : List Char) {look : TextLook} (other : look ≠ commentLook)
    {c : Float} (shows : ∀ t, Shows t look ↔
      t.letter = ['G'] ∧ ∃ value, t.number? = some value ∧ (value == c) = true) :
    (∃ place, lookAt (spans line) place = some look) ↔ (given 'G' line).any (· == c) = true := by
  rw [given_G_any number]
  simp only [lookAt_eq_iff number other, shows]
  constructor
  · rintro ⟨place, t, member, _, word⟩
    exact ⟨t, member, word⟩
  · rintro ⟨t, member, spelt, numbered⟩
    rcases token_cases member with ⟨_, bare⟩ | ⟨_, _, _, covers⟩
    · rw [bare] at spelt
      cases spelt
    · exact ⟨t.start, t, member, covers, spelt, numbered⟩

/-- The unit with the number of a visible character is formatted as the character is read: as a comment if a comment
token lies over the character; elsewhere with the look that a word token over it shows, and not at all without one.
It is a unit of that very character, and the only one, if up to there every character has one unit. Units with higher
numbers are not formatted. So a line moves rapidly if the format of rapid movements stands in it, and linearly if
only that of linear ones does. -/
theorem colours_tokens {β : Type} {f : Formatter β} (lawful : f.Lawful) (number : Int) (line : List Char) :
    let block := highlight f line
    (∀ place c, (line)[place]? = some c → Text.isBlank c = false →
      (f.formatAt block place = some commentLook ↔
        ∃ t ∈ tokens number line, t.Covers place ∧ t.kind = .comment) ∧
      (∀ look, look ≠ commentLook → (f.formatAt block place = some look ↔
        ∃ t ∈ tokens number line, t.Covers place ∧ Shows t look)) ∧
      ((∀ d ∈ line.take (place + 1), d.toNat < 0x10000) →
        ∀ unit, Text.HasUnit line place unit ↔ unit = place)) ∧
    (∀ unit, line.length ≤ unit → f.formatAt block unit = none) ∧
    ((Block.ofLine number line).1.bind Block.kind? = some .rapid ↔
      ∃ unit, f.formatAt block unit = some rapidLook) ∧
    ((Block.ofLine number line).1.bind Block.kind? = some .linear ↔
      (¬ ∃ unit, f.formatAt block unit = some rapidLook) ∧
        ∃ unit, f.formatAt block unit = some linearLook) := by
  have rapid := exists_lookAt_iff number line (by decide) fun _ => shows_rapid_iff
  have linear := exists_lookAt_iff number line (by decide) fun _ => shows_linear_iff
  simp only [formatAt_highlight lawful]
  refine ⟨fun place c here visible => ⟨lookAt_comment_iff number here visible,
    fun look other => lookAt_eq_iff number other, ?_⟩, ?_, ?_, ?_⟩
  · exact Text.hasUnit_iff (List.getElem?_eq_some_iff.mp here).1
  · intro unit beyond
    rw [← formatAt_highlight lawful, formatAt_beyond lawful beyond]
  · rw [kind?_ofLine, rapid, ← isRapid, isMotion]
    cases isRapid line <;> cases isLinear line <;> simp
  · rw [kind?_ofLine, rapid, linear, ← isRapid, ← isLinear, isMotion]
    cases isRapid line <;> cases isLinear line <;> simp

/-- The G0 in the comment is coloured as the comment that it stands in, and the line moves linearly. -/
theorem colours_tokens_commented : Formatter.listing.Lawful ∧ ("X1(G0)G1;Y2".toList)[3]? = some 'G' ∧
    Text.isBlank 'G' = false ∧
      let f := Formatter.listing
      let block := highlight f "X1(G0)G1;Y2".toList
      f.formatAt block 3 = some commentLook ∧
        (∀ unit, Text.HasUnit "X1(G0)G1;Y2".toList 3 unit ↔ unit = 3) ∧
        (Block.ofLine 1 "X1(G0)G1;Y2".toList).1.bind Block.kind? = some .linear ∧
        ¬ ∃ unit, f.formatAt block unit = some rapidLook := by
  have colours := colours_tokens Formatter.listing_lawful 1 "X1(G0)G1;Y2".toList
  have motion : (Block.ofLine 1 "X1(G0)G1;Y2".toList).1.bind Block.kind? = some .linear := by
    decide +kernel
  have token : ⟨.comment, ['G', '0'], 1, 2, 6, []⟩ ∈ tokens 1 "X1(G0)G1;Y2".toList := by
    decide +kernel
  obtain ⟨comment, _, own⟩ := colours.1 3 'G' (by decide) (by decide)
  refine ⟨Formatter.listing_lawful, by decide, by decide, ?_, own (by simp), motion, (colours.2.2.2.mp motion).1⟩
  exact comment.mpr ⟨_, token, ⟨by decide, by decide⟩, rfl⟩

/-- Behind a character of two units the colours lie one unit too far to the left: the last character of the word, a
rapid movement, is left without any. -/
theorem wide_shifts_colours :
    let line := [Char.ofNat 0x1F600, ' ', 'G', '0']
    (∃ t ∈ tokens 1 line, t.Covers 3 ∧ Shows t rapidLook) ∧
      (∀ unit, Text.HasUnit line 3 unit ↔ unit = 4) ∧
      Formatter.listing.formatAt (highlight Formatter.listing line) 4 = none := by
  intro line
  have token : ⟨.ofLetter 'G', ['0'], 1, 2, 4, ['G']⟩ ∈ tokens 1 line := by decide +kernel
  have zero : (⟨.ofLetter 'G', ['0'], 1, 2, 4, ['G']⟩ : Token).number? = some 0 := by decide
  refine ⟨⟨_, token, ⟨by decide, by decide⟩, .rapid rfl zero (by decide)⟩, fun unit => ?_,
    formatAt_beyond Formatter.listing_lawful (by decide)⟩
  have before : Text.unitCount (line.take 3) = 4 := by decide
  have through : Text.unitCount (line.take 4) = 5 := by decide
  rw [Text.HasUnit, before, through]
  omega

end Toolpath.Highlight
