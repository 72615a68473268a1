import Mathlib
import Toolpath.Proofs.Gcode.Fields

/-! Programs written bare: each line is replaced by the words that are read from it, with single
blanks between them. A word is read the same wherever it stands, so a bare line has the words that
it is written with and nothing besides, and a bare program moves as the one it is taken from. -/
namespace Toolpath.Gcode

/-- A line with its words only. -/
def bareLine (line : List Char) : List Char :=
  [' '].intercalate (((tokens 1 line).filter (·.kind ≠ .comment)).map fun t => t.letter ++ t.value)

def bareText (text : List Char) : List Char := Text.joinLines ((Text.splitLines text).map bareLine)

/-! Words as they are written. -/

/-- The capital form of a letter is its own. -/
theorem capitalLetter?_capital {c letter : Char} (capital : capitalLetter? c = some letter) :
    capitalLetter? letter = some letter := by
  have kept (same : c = letter) : capitalLetter? letter = some letter := same ▸ same ▸ capital
  unfold capitalLetter? at capital
  split at capital
  · exact kept (Option.some.inj capital)
  · split at capital
    · rename_i lower
      have upper : c.toUpper.isUpper = true := by
        rw [Char.isUpper_toUpper_eq_isAlpha, Char.isAlpha, lower, Bool.or_true]
      rw [← Option.some.inj capital]
      exact if_pos upper
    · split at capital
      · cases capital
        rfl
      · split at capital
        · cases capital
          rfl
        · split at capital
          · exact kept (Option.some.inj capital)
          · cases capital

namespace Word

/-- A word with its letter in its capital form. -/
def bare (w : Word) : Word := { w with spelt := w.letter }

theorem Legal.bare {w : Word} (legal : w.Legal) : w.bare.Legal :=
  ⟨capitalLetter?_capital legal.letter, legal.number⟩

theorem Legal.solid {w : Word} (legal : w.Legal) : Solid w.text where
  nonempty := List.cons_ne_nil _ _
  visible c member := by
    rw [Bool.eq_false_iff]
    intro blank
    exact legal.clear (.blank blank) member
  plain _ member opens := legal.clear (.opening opens) member

theorem Legal.split_text {w : Word} (legal : w.Legal) : Piece.split w.text = [.word w] := by
  have whole := split_complete (List.forall_mem_singleton.mpr (Piece.Legal.word legal))
  simpa [Piece.text] using whole

end Word

theorem legal_of_mem_words {line : List Char} {w : Word} (member : w ∈ words line) : w.Legal := by
  cases comment : isCommentLine (Text.trim line) with
  | true =>
    rw [words_of_comment comment] at member
    cases member
  | false =>
    rw [words_of_code comment] at member
    obtain ⟨p, piece, word⟩ := List.mem_filterMap.mp member
    cases p with
    | blank c => cases word
    | comment text closed => cases word
    | junk text => cases word
    | word v =>
      cases word
      exact legal_of_mem_split piece

/-! Bare lines. -/

/-- The bare form of a line comes from its words, whatever number the line has. -/
theorem bareLine_eq (line : List Char) :
    bareLine line = [' '].intercalate ((words line).map (·.bare.text)) := by
  have said := congrArg (List.map fun q => q.2.1 ++ q.2.2) (word_tokens 1 line)
  rw [List.map_map, List.map_map] at said
  exact congrArg _ said

theorem intercalate_eq_fieldsText (first : List Char) (rest : List (List Char)) :
    [' '].intercalate (first :: rest) = fieldsText first rest := by
  induction rest generalizing first with
  | nil => simp [fieldsText]
  | cons second rest ih => rw [fieldsText_cons, ← ih]; simp [List.intercalate]

/-- A bare line is blank, or has its words for fields. -/
theorem bareLine_cases (line : List Char) : words line = [] ∧ bareLine line = [] ∨
    ∃ w ws, words line = w :: ws ∧ (∀ v ∈ w :: ws, v.bare.Legal) ∧
      (∀ f ∈ w.bare.text :: ws.map (·.bare.text), Solid f) ∧
      bareLine line = fieldsText w.bare.text (ws.map (·.bare.text)) := by
  have legal (w : Word) (member : w ∈ words line) : w.bare.Legal :=
    (legal_of_mem_words member).bare
  rw [bareLine_eq]
  cases read : words line with
  | nil => exact .inl ⟨rfl, rfl⟩
  | cons w ws =>
    rw [read] at legal
    have solid : ∀ f ∈ (w :: ws).map (·.bare.text), Solid f :=
      List.forall_mem_map.mpr fun v member => (legal v member).solid
    exact .inr ⟨w, ws, rfl, legal, solid, intercalate_eq_fieldsText _ _⟩

/-- The words of a bare line are those that it is written with. -/
theorem words_bareLine (line : List Char) : words (bareLine line) = (words line).map Word.bare := by
  rcases bareLine_cases line with ⟨none, blank⟩ | ⟨w, ws, read, legal, solid, written⟩
  · rw [none, blank, words_blank, List.map_nil]
  · have alone (v : Word) (member : v ∈ w :: ws) :
        (Piece.split v.bare.text).filterMap Piece.word? = [v.bare] := by
      rw [(legal v member).split_text]
      rfl
    rw [read, written, words_fieldsText solid]
    change ((w :: ws).map (·.bare.text)).flatMap _ = _
    rw [List.flatMap_map, List.flatMap_congr alone]
    exact List.map_eq_flatMap.symm

/-- Nothing of a bare line is left out. -/
theorem tokenDiagnostics_bareLine (number : Int) (line : List Char) :
    tokenDiagnostics number (bareLine line) = [] := by
  rcases bareLine_cases line with ⟨_, blank⟩ | ⟨w, ws, _, legal, solid, written⟩
  · rw [blank]
    rfl
  · rw [written, tokenDiagnostics_fieldsText_iff solid]
    change ∀ f ∈ (w :: ws).map (·.bare.text), _
    rw [List.forall_mem_map]
    intro v member
    rw [(legal v member).split_text, List.forall_mem_singleton]
    exact .word (legal v member)

/-- A bare line stays as it is. -/
theorem bareLine_bareLine (line : List Char) : bareLine (bareLine line) = bareLine line := by
  rw [bareLine_eq, words_bareLine, List.map_map, bareLine_eq]
  rfl

theorem newline_not_mem_bareLine (line : List Char) : '\n' ∉ bareLine line := by
  rcases bareLine_cases line with ⟨_, blank⟩ | ⟨w, ws, _, _, solid, written⟩
  · rw [blank]
    exact List.not_mem_nil
  · rw [written]
    exact newline_not_mem_fieldsText solid

/-! The effect of a line comes from its numbers. -/

theorem lineEffect_congr {line other : List Char}
    (same : ∀ letter, given letter line = given letter other) :
    lineEffect line = lineEffect other := by
  have rapid : isRapid line = isRapid other := congrArg (List.any · (· == 0)) (same 'G')
  have linear : isLinear line = isLinear other := congrArg (List.any · (· == 1)) (same 'G')
  have motion : isMotion line = isMotion other := congrArg₂ or rapid linear
  have x : firstX line = firstX other := congrArg List.head? (same 'X')
  have y : firstY line = firstY other := congrArg List.head? (same 'Y')
  have feed : firstFeed line = firstFeed other :=
    congrArg (List.find? fun feed : Float => 0 ≤ feed) (same 'F')
  rw [lineEffect, lineEffect, motion, rapid, x, y, feed]

theorem given_bareLine (letter : Char) (line : List Char) :
    given letter (bareLine line) = given letter line := by
  rw [given, words_bareLine, List.filterMap_map]
  rfl

theorem lineEffect_bareLine (line : List Char) : lineEffect (bareLine line) = lineEffect line :=
  lineEffect_congr fun letter => given_bareLine letter line

theorem Modal.after_eq_effects (m : Modal) (number : Int) (lines : List (List Char)) :
    m.after ((Program.readLines number lines).filterMap (·.1)) =
      m.afterEffects (lines.map lineEffect) := by
  induction lines generalizing m number with
  | nil => rfl
  | cons line lines ih =>
    have has := lineEffect_of number line
    rw [Program.readLines, List.filterMap_cons, List.map_cons]
    cases effect : lineEffect line with
    | silent =>
      rw [effect] at has
      cases shape : (Block.ofLine number line).1 with
      | none => exact ih m (number + 1)
      | some b =>
        have still : m.afterBlock b = m := by rw [afterBlock, has b shape]
        change (m.afterBlock b).after _ = _
        rw [still, ih]
        rfl
    | motion kind x y feed =>
      rw [effect] at has
      obtain ⟨b, shape, _, moved, rfl, rfl, rfl⟩ := has
      have next : m.afterBlock b = m.advance b.x b.y b.f := by rw [afterBlock, moved]
      rw [shape]
      change (m.afterBlock b).after _ = _
      rw [next, ih]
      rfl

/-- What a program comes to is that of the effects of its lines. -/
theorem parse_congr {text other : List Char}
    (same : (Text.splitLines text).map lineEffect = (Text.splitLines other).map lineEffect) :
    (Program.parse text).moves = (Program.parse other).moves ∧
      (Program.parse text).envelope = (Program.parse other).envelope ∧
      (Program.parse text).final = (Program.parse other).final ∧
      (Program.parse text).statistics = (Program.parse other).statistics := by
  have moves : (Program.parse text).moves = (Program.parse other).moves := by
    rw [parse_run, parse_run, same]
  have around (text : List Char) :
      (Program.parse text).envelope = .ofMoves (Program.parse text).moves := rfl
  refine ⟨moves, ?_, ?_, ?_⟩
  · rw [around, around, moves]
  · change Modal.start.after _ = Modal.start.after _
    rw [Modal.after_eq_effects, Modal.after_eq_effects, same]
  · rw [Program.statistics, Program.statistics, moves]

/-! Bare programs. -/

theorem splitLines_bareText (text : List Char) :
    Text.splitLines (bareText text) = (Text.splitLines text).map bareLine := by
  refine splitLines_joinLines ?_ ?_
  · rw [ne_eq, List.map_eq_nil_iff]
    exact Text.splitLines_ne_nil text
  · rw [List.forall_mem_map]
    exact fun line _ => newline_not_mem_bareLine line

/-- A bare text stays as it is. -/
theorem bareText_bareText (text : List Char) : bareText (bareText text) = bareText text := by
  have same : ((Text.splitLines text).map bareLine).map bareLine =
      (Text.splitLines text).map bareLine := by
    rw [List.map_map]
    refine List.map_congr_left fun line _ => ?_
    rw [Function.comp_apply, bareLine_bareLine]
  rw [bareText, splitLines_bareText, same, bareText]

/-- Comments, blanks and what is left out carry no meaning: a text and its bare form have as many
lines and the same moves, envelope, final values and statistics, nothing in the bare form is left
out, and it is its own bare form. -/
theorem parse_bareText (text : List Char) :
    let bare := bareText text
    (Text.splitLines bare).length = (Text.splitLines text).length ∧
    (∀ line ∈ Text.splitLines bare, ∀ number, tokenDiagnostics number line = []) ∧
    (Program.parse bare).moves = (Program.parse text).moves ∧
    (Program.parse bare).envelope = (Program.parse text).envelope ∧
    (Program.parse bare).final = (Program.parse text).final ∧
    (Program.parse bare).statistics = (Program.parse text).statistics ∧
    bareText bare = bare := by
  intro bare
  have lines : Text.splitLines bare = (Text.splitLines text).map bareLine :=
    splitLines_bareText text
  have effects : (Text.splitLines bare).map lineEffect = (Text.splitLines text).map lineEffect := by
    rw [lines, List.map_map]
    refine List.map_congr_left fun line _ => ?_
    rw [Function.comp_apply, lineEffect_bareLine]
  obtain ⟨moves, envelope, final, statistics⟩ := parse_congr effects
  refine ⟨?_, ?_, moves, envelope, final, statistics, ?_⟩
  · rw [lines, List.length_map]
  · rw [lines, List.forall_mem_map]
    exact fun line _ number => tokenDiagnostics_bareLine number line
  · exact bareText_bareText text

end Toolpath.Gcode
