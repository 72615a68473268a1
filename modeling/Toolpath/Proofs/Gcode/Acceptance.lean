import Mathlib
import Toolpath.Proofs.Gcode.Modality

/-! Which lines are read without a report. A line is if it is blank or begins as a comment, or if
its part before the first semicolon is written by the grammar and its words ask for nothing that a
block refuses. -/
namespace Toolpath.Gcode
open Decimal

/-- What the words of a line may ask for: numbers that are finite where they are used, no feed below
zero, one value for each of X, Y and F at most, and not both motions. -/
structure Sound (ws : List Word) : Prop where
  finite : ∀ w ∈ ws, w.letter ∈ ['G', 'X', 'Y', 'F'] → ∃ value, finite? w.number = some value
  forward : ∀ w ∈ ws, w.letter = 'F' → ∀ feed, finite? w.number = some feed → ¬ feed < 0
  once : ∀ letter ∈ ['X', 'Y', 'F'], ws.countP (·.letter = letter) ≤ 1
  oneMotion : ¬ ((∃ w ∈ ws, w.letter = 'G' ∧ ∃ code, finite? w.number = some code ∧ code == 0) ∧
    ∃ w ∈ ws, w.letter = 'G' ∧ ∃ code, finite? w.number = some code ∧ code == 1)

/-! Blocks. -/

/-- Whether a token has a number where one is used, and one that is not below zero where it is a
feed. -/
structure Token.Usable (t : Token) : Prop where
  finite : t.kind ∈ [.g, .x, .y, .f] → ∃ value, t.number? = some value
  forward : t.kind = .f → ∀ feed, t.number? = some feed → ¬ feed < 0

theorem Token.unusable {t : Token} (used : t.kind ∈ [.g, .x, .y, .f]) (unread : t.number? = none) :
    ¬ t.Usable := by
  intro usable
  obtain ⟨value, read⟩ := usable.finite used
  rw [unread] at read
  cases read

theorem Token.usable_of_number {t : Token} {value : Float} (read : t.number? = some value)
    (forward : t.kind = .f → ¬ value < 0) : t.Usable where
  finite _ := ⟨value, read⟩
  forward kind feed same := by
    rw [read, Option.some.injEq] at same
    exact same ▸ forward kind

namespace Block
variable {b : Block} {t : Token}

/-- The value that a block holds for words of a kind. -/
def held (b : Block) : TokenKind → Option Float
  | .x => b.x
  | .y => b.y
  | .f => b.f
  | .g | .other | .comment => none

theorem fill_silent_iff {present : Option Float} {set : Block} :
    (b.fill t present set).2 = [] ↔ present = none := by
  cases present <;> simp [fill]

/-- A word is taken without a report if it is usable and the first of its kind. -/
theorem take_silent_iff : (b.take t).2 = [] ↔ t.Usable ∧ b.held t.kind = none := by
  unfold take takeValue
  cases kind : t.kind with
  | other | comment =>
    have usable : t.Usable := by constructor <;> simp [kind]
    simp [held, usable]
  | g =>
    cases number : t.number? with
    | none => simp [Token.unusable (by simp [kind]) number]
    | some value =>
      have usable : t.Usable := Token.usable_of_number number (by simp [kind])
      simp [held, usable]
  | x | y =>
    cases number : t.number? with
    | none => simp [Token.unusable (by simp [kind]) number]
    | some value =>
      have usable : t.Usable := Token.usable_of_number number (by simp [kind])
      simp [held, usable, fill_silent_iff]
  | f =>
    cases number : t.number? with
    | none => simp [Token.unusable (by simp [kind]) number]
    | some value =>
      by_cases negative : value < 0
      · have unusable : ¬ t.Usable := fun usable => usable.forward kind value number negative
        simp [negative, unusable]
      · have usable : t.Usable := Token.usable_of_number number fun _ => negative
        simp [negative, held, usable, fill_silent_iff]

/-- A word that is taken fills the field of its kind. -/
theorem held_take (silent : (b.take t).2 = []) {kind : TokenKind} (field : kind ∈ [.x, .y, .f]) :
    ((b.take t).1.held kind).isSome.toNat =
      (b.held kind).isSome.toNat + if t.kind = kind then 1 else 0 := by
  obtain ⟨usable, free⟩ := take_silent_iff.mp silent
  unfold take takeValue
  cases shape : t.kind with
  | other | comment =>
    have apart : ¬ t.kind = kind := by rintro rfl; simp [shape] at field
    rw [shape] at apart
    simp [apart]
  | g =>
    have apart : ¬ t.kind = kind := by rintro rfl; simp [shape] at field
    obtain ⟨value, number⟩ := usable.finite (by simp [shape])
    rw [shape] at apart
    simp only [number, if_neg apart]
    cases kind <;> rfl
  | x | y =>
    obtain ⟨value, number⟩ := usable.finite (by simp [shape])
    rw [shape, held] at free
    simp only [number, fill, free]
    cases kind <;> simp [held, free]
  | f =>
    obtain ⟨value, number⟩ := usable.finite (by simp [shape])
    rw [shape, held] at free
    simp only [number, if_neg (usable.forward shape value number), fill, free]
    cases kind <;> simp [held, free]

theorem takeAll_silent_iff {ts : List Token} : (b.takeAll ts).2 = [] ↔
    (∀ t ∈ ts, t.Usable) ∧ ∀ kind ∈ [TokenKind.x, .y, .f],
      (b.held kind).isSome.toNat + ts.countP (·.kind = kind) ≤ 1 := by
  induction ts generalizing b with
  | nil => simp [takeAll, Bool.toNat_le]
  | cons t ts ih =>
    rw [takeAll, List.append_eq_nil_iff, ih]
    constructor
    · rintro ⟨first, usable, room⟩
      refine ⟨List.forall_mem_cons.mpr ⟨(take_silent_iff.mp first).1, usable⟩, ?_⟩
      intro kind field
      have filled := held_take first field
      have left := room kind field
      rw [List.countP_cons]
      simp only [decide_eq_true_eq]
      omega
    · rintro ⟨all, room⟩
      obtain ⟨usable, others⟩ := List.forall_mem_cons.mp all
      have free : b.held t.kind = none := by
        by_contra taken
        have field : t.kind ∈ [TokenKind.x, .y, .f] := by
          cases shape : t.kind <;> simp_all [held]
        have excess := room t.kind field
        rw [Option.ne_none_iff_isSome.mp taken, List.countP_cons_of_pos (by simp)] at excess
        simp at excess
      have first := take_silent_iff.mpr ⟨usable, free⟩
      refine ⟨first, others, ?_⟩
      intro kind field
      have filled := held_take first field
      have left := room kind field
      rw [List.countP_cons] at left
      simp only [decide_eq_true_eq] at left
      omega

theorem bothDiagnostic?_silent_iff : b.bothDiagnostic? = [] ↔
    ¬ (b.gCodes.any (· == 0) = true ∧ b.gCodes.any (· == 1) = true) := by
  have rapid : b.kind? = some .rapid ↔ b.gCodes.any (· == 0) = true := by
    unfold kind?
    split_ifs <;> simp_all
  simp only [bothDiagnostic?, rapid]
  split
  · rename_i both
    exact ⟨fun silent => absurd silent (List.cons_ne_nil _ _), fun apart => absurd both apart⟩
  · rename_i apart
    exact ⟨fun _ => apart, fun _ => rfl⟩

/-- Nothing is reported about a line if nothing is about its pieces, about its words, and about its
two motions. -/
theorem ofLine_silent_iff (number : Int) (line : List Char) :
    let taken := (empty number (tokens number line).length).takeAll (tokens number line)
    (ofLine number line).2 = [] ↔
      tokenDiagnostics number line = [] ∧ taken.2 = [] ∧ taken.1.bothDiagnostic? = [] := by
  intro taken
  unfold ofLine
  simp only
  split
  · rename_i comments
    have nothing : taken = (empty number (tokens number line).length, []) :=
      takeAll_comments fun t member => by simpa using List.all_eq_true.mp comments t member
    have still : (empty number (tokens number line).length).bothDiagnostic? = [] :=
      bothDiagnostic?_silent_iff.mpr (by simp [empty])
    simp [nothing, still]
  · rw [List.append_eq_nil_iff, List.append_eq_nil_iff, and_assoc]
    rfl

end Block

/-! Words. -/

/-- What a word token says. -/
def Token.wording (t : Token) : TokenKind × List Char × List Char := (t.kind, t.letter, t.value)

def Word.wording (w : Word) : TokenKind × List Char × List Char :=
  (.ofLetter w.letter, [w.letter], w.number)

/-- The word tokens of a line are its words. -/
theorem word_tokens (number : Int) (line : List Char) :
    ((tokens number line).filter (·.kind ≠ .comment)).map Token.wording =
      (words line).map Word.wording := by
  rw [← List.filterMap_eq_map, List.filterMap_filter, ← List.filterMap_eq_map]
  apply tokens_filterMap
  · intro t comment
    simp [comment]
  · intro w start stop
    simp [Token.wording, Block.ofLetter_ne_comment, Word.wording]

theorem forall_tokens_iff (number : Int) (line : List Char)
    {P : TokenKind × List Char × List Char → Prop} :
    (∀ t ∈ tokens number line, t.kind ≠ .comment → P t.wording) ↔
      ∀ w ∈ words line, P w.wording := by
  rw [← List.forall_mem_map, ← word_tokens number line, List.forall_mem_map]
  simp only [List.mem_filter, decide_eq_true_eq, and_imp]

theorem countP_tokens (number : Int) (line : List Char) {kind : TokenKind}
    (word : kind ≠ .comment) : (tokens number line).countP (·.kind = kind) =
      (words line).countP (TokenKind.ofLetter ·.letter = kind) := by
  have counted := congrArg (List.countP (·.1 = kind)) (word_tokens number line)
  rw [List.countP_map, List.countP_map, List.countP_filter] at counted
  refine Eq.trans (List.countP_congr fun t _ => ?_) counted
  by_cases same : t.kind = kind <;> simp [Token.wording, same, word]

theorem usable_tokens (number : Int) (line : List Char) :
    (∀ t ∈ tokens number line, t.Usable) ↔
      (∀ w ∈ words line, w.letter ∈ ['G', 'X', 'Y', 'F'] →
        ∃ value, finite? w.number = some value) ∧
      ∀ w ∈ words line, w.letter = 'F' → ∀ feed, finite? w.number = some feed → ¬ feed < 0 := by
  have comments (t : Token) : t.Usable ↔ (t.kind ≠ .comment → t.Usable) := by
    refine ⟨fun usable _ => usable, fun usable => ?_⟩
    by_cases comment : t.kind = .comment
    · constructor <;> simp [comment]
    · exact usable comment
  have transferred := @forall_tokens_iff number line fun q =>
    (q.1 ∈ [.g, .x, .y, .f] → ∃ value, finite? q.2.2 = some value) ∧
      (q.1 = .f → ∀ feed, finite? q.2.2 = some feed → ¬ feed < 0)
  have letters (w : Word) : (w.letter ∈ ['G', 'X', 'Y', 'F'] ↔
      TokenKind.ofLetter w.letter ∈ [TokenKind.g, .x, .y, .f]) ∧
      (w.letter = 'F' ↔ TokenKind.ofLetter w.letter = .f) := by
    obtain ⟨g, x, y, f⟩ := ofLetter_eq_iff w.letter
    simp only [List.mem_cons, List.not_mem_nil, or_false, g, x, y, f, true_and]
  simp only [letters, ← forall₂_and]
  refine Iff.trans ?_ transferred
  refine forall₂_congr fun t _ => (comments t).trans (imp_congr_right fun _ => ?_)
  exact ⟨fun usable => ⟨usable.finite, usable.forward⟩, fun usable => ⟨usable.1, usable.2⟩⟩

theorem sound_iff (number : Int) (line : List Char) :
    let taken := (Block.empty number (tokens number line).length).takeAll (tokens number line)
    Sound (words line) ↔ taken.2 = [] ∧ taken.1.bothDiagnostic? = [] := by
  intro taken
  have fields : (∀ kind ∈ [TokenKind.x, .y, .f],
      ((Block.empty number (tokens number line).length).held kind).isSome.toNat +
        (tokens number line).countP (·.kind = kind) ≤ 1) ↔
      ∀ letter ∈ ['X', 'Y', 'F'], (words line).countP (·.letter = letter) ≤ 1 := by
    have counts (kind : TokenKind) (word : kind ≠ .comment) := countP_tokens number line word
    simp only [List.forall_mem_cons, List.not_mem_nil, false_implies, implies_true, and_true,
      counts .x (by decide), counts .y (by decide), counts .f (by decide), ofLetter_eq_iff]
    simp [Block.held, Block.empty]
  have codes : taken.1.gCodes = given 'G' line := by
    rw [(given_kinds number line).1]
    exact (Block.takeAll_filled (tokens number line)).gCodes
  have motions (value : Float) : (given 'G' line).any (· == value) = true ↔
      ∃ w ∈ words line, w.letter = 'G' ∧ ∃ code, finite? w.number = some code ∧ code == value := by
    simp only [given, List.any_eq_true, List.mem_filterMap]
    constructor
    · rintro ⟨code, ⟨w, member, read⟩, same⟩
      split at read
      · rename_i letter
        exact ⟨w, member, letter, code, read, same⟩
      · cases read
    · rintro ⟨w, member, letter, code, read, same⟩
      exact ⟨code, ⟨w, member, by rw [if_pos letter, read]⟩, same⟩
  rw [Block.takeAll_silent_iff, Block.bothDiagnostic?_silent_iff, usable_tokens, fields, codes,
    motions, motions]
  constructor
  · rintro ⟨finite, forward, once, apart⟩
    exact ⟨⟨⟨finite, forward⟩, once⟩, apart⟩
  · rintro ⟨⟨⟨finite, forward⟩, once⟩, apart⟩
    exact ⟨finite, forward, once, apart⟩

/-! Lines. -/

/-- Only a parenthesis begins both a comment and a text that is written by the grammar. -/
theorem comment_not_written {ps : List Piece} (legal : ∀ p ∈ ps, p.Legal) {stripped : List Char}
    (comment : isCommentLine stripped = true) (other : stripped.head? ≠ some '(')
    (written : stripped.takeWhile (· != ';') = ps.flatMap Piece.text) : ps = [] := by
  obtain ⟨c, opens, first⟩ := (isCommentLine_iff stripped).mp comment
  obtain ⟨rest, rfl⟩ : ∃ rest, stripped = c :: rest := by
    cases stripped with
    | nil => cases first
    | cons d rest =>
      cases first
      exact ⟨rest, rfl⟩
  cases ps with
  | nil => rfl
  | cons p ps =>
    obtain ⟨d, more, text, begins⟩ := (legal p List.mem_cons_self).head
    rw [List.flatMap_cons, text] at written
    simp only [List.mem_cons, List.not_mem_nil, or_false] at opens
    rcases opens with rfl | rfl | rfl
    · exact absurd rfl other
    · cases written
    · obtain ⟨rfl, -⟩ := List.cons.inj written
      rcases begins with blank | paren | ⟨letter, capital⟩
      · exact absurd blank (by decide)
      · exact absurd paren (by decide)
      · cases capital

theorem sound_nil : Sound [] where
  finite := by simp
  forward := by simp
  once := by simp
  oneMotion := by simp

theorem words_of_blank {line : List Char} (blank : Text.trim line = []) : words line = [] := by
  rw [words_of_code (by rw [blank]; rfl), blank, List.takeWhile_nil, Piece.split]
  rfl

theorem tokenDiagnostics_silent_iff (number : Int) {line : List Char}
    (code : isCommentLine (Text.trim line) = false) :
    tokenDiagnostics number line = [] ↔
      ∀ p ∈ Piece.split ((Text.trim line).takeWhile (· != ';')), p.Legal := by
  rw [tokenDiagnostics_eq number code]
  exact split_silent_iff number (LineParts.ofLine line).start _

theorem ofLine_silent_iff_written (number : Int) (line : List Char) :
    (Block.ofLine number line).2 = [] ↔
      Text.trim line = [] ∨ isCommentLine (Text.trim line) = true ∨
      ∃ ps : List Piece, (∀ p ∈ ps, p.Legal) ∧
        (Text.trim line).takeWhile (· != ';') = ps.flatMap Piece.text ∧
        Sound (ps.filterMap Piece.word?) := by
  have silent : (Block.ofLine number line).2 = [] ↔
      tokenDiagnostics number line = [] ∧ Sound (words line) :=
    (Block.ofLine_silent_iff number line).trans
      (and_congr_right fun _ => (sound_iff number line).symm)
  rw [silent]
  by_cases blank : Text.trim line = []
  · have unreported : tokenDiagnostics number line = [] := if_pos (.inl blank)
    rw [words_of_blank blank]
    exact ⟨fun _ => .inl blank, fun _ => ⟨unreported, sound_nil⟩⟩
  · cases comment : isCommentLine (Text.trim line) with
    | true =>
      have unreported : tokenDiagnostics number line = [] := if_pos (.inr comment)
      rw [words_of_comment comment]
      exact ⟨fun _ => .inr (.inl rfl), fun _ => ⟨unreported, sound_nil⟩⟩
    | false =>
      rw [tokenDiagnostics_silent_iff number comment, words_of_code comment]
      constructor
      · rintro ⟨legal, sound⟩
        exact .inr (.inr ⟨_, legal, (Piece.flatMap_text_split _).symm, sound⟩)
      · rintro (none | none | ⟨ps, legal, written, sound⟩)
        · exact absurd none blank
        · cases none
        · rw [written, split_complete legal]
          exact ⟨legal, sound⟩

/-- A line is read without a report exactly if it is blank, begins as a comment, or is written by
the grammar up to its first semicolon, with sound words. Unless it begins with a parenthesis, its
word tokens are then the words that it is written with; a line that begins as a comment has none. -/
theorem silent_iff_grammar (number : Int) (line : List Char) :
    let stripped := Text.trim line
    let code := stripped.takeWhile (· != ';')
    let wordTokens := (tokens number line).filter (·.kind ≠ .comment)
    ((Block.ofLine number line).2 = [] ↔ stripped = [] ∨
      (∃ c ∈ ['(', ';', '%'], stripped.head? = some c) ∨
      ∃ ps : List Piece, (∀ p ∈ ps, p.Legal) ∧ code = ps.flatMap Piece.text ∧
        Sound (ps.filterMap Piece.word?)) ∧
    (∀ ps : List Piece, (∀ p ∈ ps, p.Legal) → code = ps.flatMap Piece.text →
      stripped.head? ≠ some '(' →
        wordTokens.map Token.wording = (ps.filterMap Piece.word?).map Word.wording) ∧
    ((∃ c ∈ ['(', ';', '%'], stripped.head? = some c) → wordTokens = []) := by
  intro stripped code wordTokens
  have said : wordTokens.map Token.wording = (words line).map Word.wording := word_tokens number line
  refine ⟨?_, ?_, ?_⟩
  · rw [← isCommentLine_iff]
    exact ofLine_silent_iff_written number line
  · intro ps legal written other
    rw [said]
    cases comment : isCommentLine stripped with
    | false =>
      have split : Piece.split code = ps := by rw [written, split_complete legal]
      rw [words_of_code comment]
      exact congrArg _ (congrArg _ split)
    | true =>
      rw [words_of_comment comment, comment_not_written legal comment other written]
      rfl
  · intro opens
    have none := words_of_comment ((isCommentLine_iff stripped).mpr opens)
    rw [none] at said
    exact List.map_eq_nil_iff.mp said

/-- A word behind a comment that begins the line is none of its tokens, though nothing is reported
about the line and it is written by the grammar. -/
theorem comment_hides_word :
    let line := "(a) X1".toList
    let ps : List Piece := [.comment ['a'] true, .blank ' ', .word ⟨'X', 'X', ['1']⟩]
    (∀ p ∈ ps, p.Legal) ∧ (Text.trim line).takeWhile (· != ';') = ps.flatMap Piece.text ∧
      Sound (ps.filterMap Piece.word?) ∧ (Block.ofLine 1 line).2 = [] ∧
      ((tokens 1 line).filter (·.kind ≠ .comment)).map Token.wording ≠
        (ps.filterMap Piece.word?).map Word.wording := by
  intro line ps
  have number : Number ['1'] :=
    .plain (.whole (List.forall_mem_singleton.mpr rfl) (List.cons_ne_nil _ _))
  have finite : ∃ value, finite? ['1'] = some value :=
    Option.isSome_iff_exists.mp (by decide +kernel)
  have sound : Sound [⟨'X', 'X', ['1']⟩] := by
    constructor
    · simpa using finite
    · simp
    · exact fun letter _ => List.countP_le_length
    · simp
  refine ⟨?_, rfl, sound, rfl, by decide⟩
  simp only [ps, List.forall_mem_cons, List.not_mem_nil, false_implies, implies_true, and_true]
  exact ⟨.comment (by decide), .blank rfl, .word ⟨rfl, number⟩⟩

end Toolpath.Gcode
