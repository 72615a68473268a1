import Mathlib
import Toolpath.Proofs.Gcode.Modality

/-! Places in a line. The pieces of its code lie one behind the other, so a place of the code has one
piece over it, and the tokens over a place are found at that piece. Around the code stand the blanks
that trimming takes away. Scanning a word stops at any character that no word contains, whatever
follows it. -/
namespace Toolpath.Gcode
open Decimal

/-! Scanning up to a character that no word contains. -/

/-- A character that no word contains. -/
structure Parts (c : Char) : Prop where
  digit : Text.isDigit c = false
  letter : capitalLetter? c = none
  mark : c ≠ '.' ∧ c ≠ '+' ∧ c ≠ '-'

theorem Parts.blank {c : Char} (blank : Text.isBlank c = true) : Parts c where
  digit := blank_not_digit blank
  letter := by
    cases capital : capitalLetter? c with
    | none => rfl
    | some letter => rw [letter_not_blank capital] at blank; cases blank
  mark := by refine ⟨?_, ?_, ?_⟩ <;> rintro rfl <;> exact absurd blank (by decide)

theorem Parts.close : Parts ')' := ⟨by decide, by decide, by decide⟩

/-- What begins a comment parts words too. -/
theorem Parts.opening {c : Char} (opens : c ∈ ['(', ';', '%']) : Parts c := by
  simp only [List.mem_cons, List.not_mem_nil, or_false] at opens
  rcases opens with rfl | rfl | rfl <;> exact ⟨by decide, by decide, by decide⟩

section
variable {c : Char} {p : Char → Bool} (rest : List Char)

theorem takeWhile_parted (stop : p c = false) (cs : List Char) :
    (cs ++ c :: rest).takeWhile p = cs.takeWhile p := by
  induction cs with
  | nil => simp [stop]
  | cons d cs ih => simp only [List.cons_append, List.takeWhile_cons, ih]

theorem dropWhile_parted (stop : p c = false) (cs : List Char) :
    (cs ++ c :: rest).dropWhile p = cs.dropWhile p ++ c :: rest := by
  induction cs with
  | nil => simp [stop]
  | cons d cs ih =>
    simp only [List.cons_append, List.dropWhile_cons, ih]
    split <;> rfl

theorem scanUnsigned?_whole {cs : List Char}
    (pointless : (cs.dropWhile Text.isDigit).head? ≠ some '.') :
    scanUnsigned? cs = if cs.takeWhile Text.isDigit = [] then none
      else some (cs.takeWhile Text.isDigit, cs.dropWhile Text.isDigit) := by
  simp only [scanUnsigned?]
  split
  · rename_i point
    exact absurd (congrArg List.head? point) pointless
  · rfl

theorem scanUnsigned?_parted (parts : Parts c) (cs : List Char) :
    scanUnsigned? (cs ++ c :: rest) =
      (scanUnsigned? cs).map fun (number, after) => (number, after ++ c :: rest) := by
  have take := takeWhile_parted rest parts.digit
  have drop := dropWhile_parted rest parts.digit
  by_cases point : (cs.dropWhile Text.isDigit).head? = some '.'
  · obtain ⟨more, split⟩ := List.head?_eq_some_iff.mp point
    simp only [scanUnsigned?, take, drop, split, List.cons_append]
    split_ifs <;> rfl
  · have further : ((cs ++ c :: rest).dropWhile Text.isDigit).head? ≠ some '.' := by
      rw [drop, List.head?_append]
      cases first : (cs.dropWhile Text.isDigit).head? with
      | none => simpa using parts.mark.1
      | some d => rwa [first] at point
    rw [scanUnsigned?_whole further, scanUnsigned?_whole point, take, drop]
    split_ifs <;> rfl

theorem scanNumber?_parted (parts : Parts c) (cs : List Char) :
    scanNumber? (cs ++ c :: rest) =
      (scanNumber? cs).map fun (number, after) => (number, after ++ c :: rest) := by
  have unsigned := scanUnsigned?_parted rest parts
  cases cs with
  | nil => simpa [scanNumber?, parts.mark.2.1, parts.mark.2.2] using unsigned []
  | cons d cs =>
    by_cases plus : d = '+'
    · subst plus
      simp only [List.cons_append, scanNumber?, unsigned, Option.map_map]
      rfl
    · by_cases minus : d = '-'
      · subst minus
        simp only [List.cons_append, scanNumber?, unsigned, Option.map_map]
        rfl
      · simpa [scanNumber?, plus, minus] using unsigned (d :: cs)

theorem Word.scan?_parted (parts : Parts c) (cs : List Char) :
    Word.scan? (cs ++ c :: rest) =
      (Word.scan? cs).map fun (w, after) => (w, after ++ c :: rest) := by
  cases cs with
  | nil => simp [Word.scan?, parts.letter]
  | cons d cs =>
    simp only [List.cons_append, Word.scan?, scanNumber?_parted rest parts]
    cases capitalLetter? d with
    | none => rfl
    | some letter => simp only [Option.bind_some, Option.map_map]; rfl

theorem Unsigned.clear {number : List Char} (unsigned : Unsigned number) (parts : Parts c) :
    c ∉ number := by
  have others {digits : List Char} (all : Digits digits) : c ∉ digits := by
    intro member
    have digit := all c member
    rw [parts.digit] at digit
    cases digit
  cases unsigned with
  | whole digits _ => exact others digits
  | point digits more _ => simp [others digits, others more, parts.mark.1]

theorem Number.clear {number : List Char} (valid : Number number) (parts : Parts c) :
    c ∉ number := by
  cases valid with
  | plain unsigned => exact unsigned.clear parts
  | signed sign unsigned =>
    refine List.not_mem_cons_of_ne_of_not_mem ?_ (unsigned.clear parts)
    rcases sign with rfl | rfl
    · exact parts.mark.2.1
    · exact parts.mark.2.2

theorem Word.Legal.clear {w : Word} (legal : w.Legal) (parts : Parts c) : c ∉ w.text := by
  refine List.not_mem_cons_of_ne_of_not_mem ?_ (legal.number.clear parts)
  rintro rfl
  have capital := legal.letter
  rw [parts.letter] at capital
  cases capital

end

/-! The piece at a place. -/

namespace Piece

def Covers (place : Nat) (placed : Nat × Piece) : Prop :=
  placed.1 ≤ place ∧ place < placed.1 + placed.2.length

instance (place : Nat) : DecidablePred (Covers place) := fun _ => inferInstanceAs (Decidable (_ ∧ _))

/-- The piece over a place, where the first of the pieces begins at `start`. -/
def at? (start : Nat) (ps : List Piece) (place : Nat) : Option (Nat × Piece) :=
  (placed start ps).find? (Covers place)

theorem start_le {start : Nat} {ps : List Piece} {at' : Nat × Piece}
    (member : at' ∈ placed start ps) : start ≤ at'.1 := by
  induction ps generalizing start with
  | nil => cases member
  | cons p ps ih =>
    rcases List.mem_cons.mp member with rfl | later
    · exact le_rfl
    · exact (Nat.le_add_right _ _).trans (ih later)

/-- Pieces do not overlap. -/
theorem at?_eq_some_iff {start : Nat} {ps : List Piece} {place : Nat} {found : Nat × Piece} :
    at? start ps place = some found ↔ found ∈ placed start ps ∧ Covers place found := by
  constructor
  · intro here
    exact ⟨List.mem_of_find?_eq_some here, by simpa using List.find?_some here⟩
  · rintro ⟨member, covers⟩
    unfold at?
    induction ps generalizing start with
    | nil => cases member
    | cons p ps ih =>
      rw [placed, List.find?_cons]
      rcases List.mem_cons.mp member with rfl | later
      · simp [covers]
      · have behind := start_le later
        have apart : decide (Covers place (start, p)) = false :=
          decide_eq_false fun first => by
            have ahead := first.2
            have reached := covers.1
            dsimp only at *
            omega
        rw [apart]
        exact ih later

theorem stop_le {start : Nat} {ps : List Piece} {at' : Nat × Piece}
    (member : at' ∈ placed start ps) :
    at'.1 + at'.2.length ≤ start + (ps.flatMap text).length := by
  induction ps generalizing start with
  | nil => cases member
  | cons p ps ih =>
    rw [List.flatMap_cons, List.length_append]
    rcases List.mem_cons.mp member with rfl | later
    · simp only [length]
      omega
    · have before := ih later
      simp only [length] at before ⊢
      omega

/-- There is a piece over every place of a code. -/
theorem exists_at? (start : Nat) {ps : List Piece} {place : Nat} (low : start ≤ place)
    (high : place < start + (ps.flatMap text).length) : ∃ found, at? start ps place = some found := by
  induction ps generalizing start with
  | nil => simp at high; omega
  | cons p ps ih =>
    by_cases first : place < start + p.length
    · exact ⟨(start, p), at?_eq_some_iff.mpr ⟨List.mem_cons_self, low, first⟩⟩
    · rw [List.flatMap_cons, List.length_append] at high
      obtain ⟨found, here⟩ := ih (start + p.length) (by omega) (by rw [length] at *; omega)
      obtain ⟨member, covers⟩ := at?_eq_some_iff.mp here
      exact ⟨found, at?_eq_some_iff.mpr ⟨List.mem_cons_of_mem _ member, covers⟩⟩

end Piece

/-! A line around its code. -/

/-- Blanks behind a line do not make it a comment. -/
theorem isCommentLine_trimStart (line : List Char) :
    isCommentLine (Text.trimStart line) = isCommentLine (Text.trim line) := by
  obtain ⟨after, ends, blanks⟩ := Text.trimStart_ends line
  rw [Bool.eq_iff_iff, isCommentLine_iff, isCommentLine_iff, ends, List.head?_append]
  cases (Text.trim line).head? with
  | some c => rfl
  | none =>
    rw [Option.none_or]
    refine iff_of_false ?_ (by simp)
    rintro ⟨c, opens, first⟩
    have blank := blanks c (List.mem_of_head? first)
    simp only [List.mem_cons, List.not_mem_nil, or_false] at opens
    rcases opens with rfl | rfl | rfl <;> exact absurd blank (by decide)

namespace LineParts
variable {line : List Char}

/-- A line up to its first semicolon: its code, and the blanks around that. -/
def front (line : List Char) : List Char := line.takeWhile (· != ';')

/-- The place lies in the code. -/
def HoldsCode (parts : LineParts) (place : Nat) : Prop :=
  parts.start ≤ place ∧ place < parts.start + parts.code.length

/-- The piece over a place of the code. -/
def pieceAt? (parts : LineParts) (place : Nat) : Option (Nat × Piece) :=
  Piece.at? parts.start (Piece.split parts.code) place

theorem exists_pieceAt? {parts : LineParts} {place : Nat} (inside : parts.HoldsCode place) :
    ∃ found, parts.pieceAt? place = some found := by
  have high : place < parts.start + ((Piece.split parts.code).flatMap Piece.text).length := by
    rw [Piece.flatMap_text_split]
    exact inside.2
  exact Piece.exists_at? parts.start inside.1 high

theorem found_inside {parts : LineParts} {found : Nat × Piece} (member : found ∈ parts.pieces) :
    parts.start ≤ found.1 ∧
      found.1 + found.2.length ≤ parts.start + parts.code.length := by
  have high := Piece.stop_le member
  rw [Piece.flatMap_text_split] at high
  exact ⟨Piece.start_le member, high⟩

theorem holdsCode_of_covers {parts : LineParts} {found : Nat × Piece} {place : Nat}
    (member : found ∈ parts.pieces) (covers : Piece.Covers place found) :
    parts.HoldsCode place := by
  have inside := found_inside member
  exact ⟨inside.1.trans covers.1, covers.2.trans_le inside.2⟩

theorem trailing_eq_none_iff :
    (ofLine line).trailing = none ↔ (Text.trim line).dropWhile (· != ';') = [] := by
  cases broken : (Text.trim line).dropWhile (· != ';') <;> simp [ofLine, broken]

theorem code_of_unbroken (unbroken : (ofLine line).trailing = none) :
    (ofLine line).code = Text.trim line :=
  List.takeWhile_eq_self_iff.mpr (List.dropWhile_eq_nil_iff.mp (trailing_eq_none_iff.mp unbroken))

/-- Up to its first semicolon a line is its code between blanks, and none follow the code if there
is a semicolon. -/
theorem code_around (line : List Char) : ∃ before after : List Char,
    front line = before ++ (ofLine line).code ++ after ∧
      before.length = (ofLine line).start ∧ (∀ c ∈ before, Text.isBlank c = true) ∧
      (∀ c ∈ after, Text.isBlank c = true) ∧ ((ofLine line).trailing ≠ none → after = []) := by
  obtain ⟨before, after, whole, start, leading, ending⟩ := Text.trim_around line
  have clean {cs : List Char} (blanks : ∀ c ∈ cs, Text.isBlank c = true) :
      ∀ c ∈ cs, (c != ';') = true := by
    intro c member
    rw [bne_iff_ne]
    rintro rfl
    exact absurd (blanks _ member) (by decide)
  have inside : front line = before ++ front (Text.trim line ++ after) := by
    conv_lhs => rw [front, whole, List.append_assoc, List.takeWhile_append_of_pos (clean leading)]
    rfl
  cases broken : (Text.trim line).dropWhile (· != ';') with
  | nil =>
    have unbroken := trailing_eq_none_iff.mpr broken
    refine ⟨before, after, ?_, start, leading, ending, fun trailing => absurd unbroken trailing⟩
    rw [inside, code_of_unbroken unbroken, front,
      List.takeWhile_append_of_pos (List.dropWhile_eq_nil_iff.mp broken),
      List.takeWhile_eq_self_iff.mpr (clean ending), List.append_assoc]
  | cons d rest =>
    have semicolon : (d != ';') = false := by
      have stopped := List.head?_dropWhile_not (p := (· != ';')) (l := Text.trim line)
      rw [broken] at stopped
      simpa using stopped
    have parted : Text.trim line = (ofLine line).code ++ d :: rest := by
      rw [← broken]
      exact List.takeWhile_append_dropWhile.symm
    refine ⟨before, [], ?_, start, leading, by simp, fun _ => rfl⟩
    rw [inside, List.append_nil]
    congr 1
    conv_lhs =>
      rw [front, parted, List.append_assoc, List.cons_append,
        takeWhile_parted (p := (· != ';')) _ semicolon]
    exact List.takeWhile_eq_self_iff.mpr fun c member =>
      List.mem_takeWhile_imp (p := (· != ';')) (l := Text.trim line) member

theorem stop_of_unbroken (unbroken : (ofLine line).trailing = none) :
    (ofLine line).stop = (ofLine line).start + (ofLine line).code.length := by
  rw [code_of_unbroken unbroken]
  rfl

theorem stop_le_length (line : List Char) : (ofLine line).stop ≤ line.length := by
  obtain ⟨before, after, whole, start, _⟩ := Text.trim_around line
  have length := congrArg List.length whole
  simp only [List.length_append] at length
  change Text.leadingBlanks line + (Text.trim line).length ≤ _
  omega

/-- What is not blank stands in the trimmed line. -/
theorem visible_inside {place : Nat} {c : Char} (here : (line)[place]? = some c)
    (visible : Text.isBlank c = false) :
    (ofLine line).start ≤ place ∧ place < (ofLine line).stop := by
  obtain ⟨before, after, whole, start, leading, ending⟩ := Text.trim_around line
  have leads : (ofLine line).start = before.length := start.symm
  have stops : (ofLine line).stop = before.length + (Text.trim line).length :=
    congrArg (· + (Text.trim line).length) start.symm
  have clear {cs : List Char} (blanks : ∀ c ∈ cs, Text.isBlank c = true) : c ∉ cs :=
    fun member => by rw [blanks c member] at visible; cases visible
  rw [leads, stops]
  constructor
  · by_contra outside
    rw [whole, List.append_assoc, List.getElem?_append_left (by omega)] at here
    exact clear leading (List.mem_of_getElem? here)
  · by_contra outside
    rw [whole, List.getElem?_append_right (by rw [List.length_append]; omega)] at here
    exact clear ending (List.mem_of_getElem? here)

end LineParts

/-! The tokens over a place. -/

def Token.Covers (t : Token) (place : Nat) : Prop := t.start ≤ place ∧ place < t.stop

theorem ofPiece?_covers {number : Int} {found : Nat × Piece} {t : Token} {place : Nat}
    (token : Token.ofPiece? number found.1 found.2 = some t) :
    t.Covers place ↔ Piece.Covers place found := by
  obtain ⟨start, p⟩ := found
  cases p with
  | blank c => cases token
  | junk text => cases token
  | word w => cases token; rfl
  | comment text closed => cases token; rfl

/-- A token over a place of a line that is not all comment is that of the piece there, or the
comment behind the code. -/
theorem covering_iff {number : Int} {line : List Char} {place : Nat} {P : Token → Prop}
    (code : isCommentLine (LineParts.ofLine line).stripped = false) :
    (∃ t ∈ tokens number line, t.Covers place ∧ P t) ↔
      (∃ found ∈ (LineParts.ofLine line).pieceAt? place,
        ∃ t ∈ Token.ofPiece? number found.1 found.2, P t) ∨
      ∃ t ∈ (LineParts.ofLine line).trailingToken? number, t.Covers place ∧ P t := by
  rw [tokens_eq number code]
  simp only [List.mem_append, List.mem_filterMap, Option.mem_toList, or_and_right, exists_or,
    Option.mem_def, LineParts.pieces]
  refine or_congr ⟨?_, ?_⟩ Iff.rfl
  · rintro ⟨t, ⟨found, member, token⟩, covers, holds⟩
    have here := Piece.at?_eq_some_iff.mpr ⟨member, (ofPiece?_covers token).mp covers⟩
    exact ⟨found, here, t, token, holds⟩
  · rintro ⟨found, here, t, token, holds⟩
    obtain ⟨member, covers⟩ := Piece.at?_eq_some_iff.mp here
    exact ⟨t, ⟨found, member, token⟩, (ofPiece?_covers token).mpr covers, holds⟩

/-- A token is a comment without a letter, or a word with its letter over some place. -/
theorem token_cases {number : Int} {line : List Char} {t : Token}
    (member : t ∈ tokens number line) :
    t.kind = .comment ∧ t.letter = [] ∨
      ∃ letter, t.kind = .ofLetter letter ∧ t.letter = [letter] ∧ t.Covers t.start := by
  cases comment : isCommentLine (LineParts.ofLine line).stripped with
  | true =>
    rw [tokens_commentLine number comment, List.mem_singleton] at member
    rw [member]
    exact .inl ⟨rfl, rfl⟩
  | false =>
    rw [tokens_eq number comment, List.mem_append] at member
    rcases member with inside | trailing
    · obtain ⟨⟨start, p⟩, _, token⟩ := List.mem_filterMap.mp inside
      cases p with
      | blank c => cases token
      | junk text => cases token
      | comment text closed => cases token; exact .inl ⟨rfl, rfl⟩
      | word w =>
        cases token
        refine .inr ⟨w.letter, rfl, rfl, le_rfl, ?_⟩
        simp [Piece.length, Piece.text, Word.text]
    · have shape := trailingToken?_start (Option.mem_toList.mp trailing)
      exact .inl ⟨shape.1, shape.2.1⟩

/-! The motion of a line, read off its tokens. -/

theorem kind?_ofLine (number : Int) (line : List Char) :
    (Block.ofLine number line).1.bind Block.kind? =
      if isMotion line then some (if isRapid line then .rapid else .linear) else none := by
  rcases Block.ofLine_filled number line with ⟨none, silent⟩ | ⟨count, b, some, filled⟩
  · have still : isMotion line = false := by rw [isMotion, isRapid, isLinear, silent]; rfl
    rw [none, still]
    rfl
  · rw [some]
    exact kind?_eq line filled.gCodes

theorem given_G_any (number : Int) (line : List Char) (p : Float → Bool) :
    (given 'G' line).any p = true ↔ ∃ t ∈ tokens number line,
      t.letter = ['G'] ∧ ∃ value, t.number? = some value ∧ p value = true := by
  rw [(given_kinds number line).1, List.any_eq_true]
  simp only [List.mem_filterMap]
  constructor
  · rintro ⟨value, ⟨t, member, given⟩, holds⟩
    unfold Token.given? at given
    split at given
    · rename_i kind
      refine ⟨t, member, ?_, value, given, holds⟩
      rcases token_cases member with ⟨comment, _⟩ | ⟨letter, word, spelt, _⟩
      · rw [comment] at kind
        cases kind
      · rw [word] at kind
        rw [spelt, (ofLetter_eq_iff letter).1.mp kind]
    · cases given
  · rintro ⟨t, member, spelt, value, number, holds⟩
    refine ⟨value, ⟨t, member, ?_⟩, holds⟩
    rcases token_cases member with ⟨_, bare⟩ | ⟨letter, word, same, _⟩
    · rw [bare] at spelt
      cases spelt
    · rw [same] at spelt
      rw [Token.given?, word, (ofLetter_eq_iff letter).1.mpr (List.singleton_inj.mp spelt), if_pos rfl,
        number]

end Toolpath.Gcode
