import Mathlib
import Toolpath.Proofs.Gcode.Places
import Toolpath.Text.Upper

/-! What lies over the characters of a line. Reading works on the trimmed text before the first
semicolon, while tokens and reports have their places in the line itself. Every piece of that text
but a blank becomes a token or a report over its own characters, so each visible character has just
one of them over it. What is ignored is no part of a word of the whole line either, because nothing
behind the code can go on with a word. -/
namespace Toolpath

theorem countP_le_one {α : Type} {p : α → Bool} {l : List α}
    (apart : l.Pairwise fun a b => ¬ (p a = true ∧ p b = true)) : l.countP p ≤ 1 := by
  induction apart with
  | nil => exact Nat.zero_le 1
  | @cons a l first _ ih =>
    rw [List.countP_cons]
    split
    · rename_i here
      have others : l.countP p = 0 :=
        List.countP_eq_zero.mpr fun b member there => first b member ⟨here, there⟩
      omega
    · omega

/-- The characters of a line from one place up to another. -/
structure Span where
  start : Int
  stop : Int

namespace Span

def Before (a b : Span) : Prop := a.stop ≤ b.start

def covers (place : Nat) (s : Span) : Bool := s.start ≤ place && place < s.stop

/-- The characters under a span. -/
def under (line : List Char) (s : Span) : List Char :=
  (line.drop s.start.toNat).take (s.stop - s.start).toNat

/-- A span over some characters of a line. -/
structure Fits (line : List Char) (s : Span) : Prop where
  start : 0 ≤ s.start
  filled : s.start < s.stop
  stop : s.stop ≤ line.length

/-- Spans from left to right without an overlap, with one over each visible character. -/
structure Partition (line : List Char) (spans : List Span) : Prop where
  fits : ∀ s ∈ spans, s.Fits line
  ordered : spans.Pairwise Before
  once : ∀ place c, (line)[place]? = some c → Text.isBlank c = false →
    spans.countP (covers place) = 1

theorem covers_iff {place : Nat} {s : Span} :
    s.covers place = true ↔ s.start ≤ place ∧ place < s.stop := by
  rw [covers, Bool.and_eq_true, decide_eq_true_eq, decide_eq_true_eq]

theorem countP_covers {spans : List Span} {s : Span} {place : Nat}
    (ordered : spans.Pairwise Before) (member : s ∈ spans) (here : s.covers place = true) :
    spans.countP (covers place) = 1 := by
  have most : spans.countP (covers place) ≤ 1 := by
    refine countP_le_one (ordered.imp fun {a b} before both => ?_)
    have left := (covers_iff.mp both.1).2
    have right := (covers_iff.mp both.2).1
    unfold Before at before
    omega
  have some : 0 < spans.countP (covers place) := List.countP_pos_iff.mpr ⟨s, member, here⟩
  omega

end Span

namespace Diagnostic

def span (d : Diagnostic) : Span := ⟨d.start, d.stop⟩

/-- A report that text is left out. -/
def ignores (d : Diagnostic) : Bool :=
  "Ignored unrecognized text: '".toList.isPrefixOf d.message.toList

end Diagnostic

namespace Gcode

def Token.span (t : Token) : Span := ⟨t.start, t.stop⟩

/-- A comment that begins with a parenthesis. -/
def Token.parenthesised (line : List Char) (t : Token) : Bool :=
  t.kind = .comment && (line)[t.start]? = some '('

/-- How the tokens of a line and the reports about it lie over it. -/
structure Accounts (line : List Char) (ts : List Token) (ds : List Diagnostic) : Prop where
  /-- Tokens and ignored texts, each in the order in which they are found, share out the line. -/
  partition : ∃ spans, Span.Partition line spans ∧ (ts.map Token.span).Sublist spans ∧
    ((ds.filter Diagnostic.ignores).map Diagnostic.span).Sublist spans ∧
    spans.Perm (ts.map Token.span ++ (ds.filter Diagnostic.ignores).map Diagnostic.span)
  word : ∀ t ∈ ts, t.kind ≠ .comment → ∃ spelt,
    t.span.under line = spelt :: t.value ∧ Text.upper [spelt] = t.letter
  ignored : ∀ d ∈ ds, d.ignores = true → d.message = junkMessage (d.span.under line) ∧
    ∀ place, d.span.covers place = true → ∃ c, (line)[place]? = some c ∧
      Text.isBlank c = false ∧ c ≠ '(' ∧ Word.scan? (line.drop place) = none
  unclosed : ds.countP (·.message = unclosedMessage) ≤ 1 ∧
    ∀ d ∈ ds, d.message = unclosedMessage → ∃ t,
      (ts.filter (·.parenthesised line)).getLast? = some t ∧ d.span = t.span

/-! Pieces in their places. -/

namespace Piece

def span (found : Nat × Piece) : Span := ⟨found.1, ↑(found.1 + found.2.length)⟩

def isToken : Piece → Bool
  | .word _ | .comment _ _ => true
  | .blank _ | .junk _ => false

def isJunk : Piece → Bool
  | .junk _ => true
  | .word _ | .comment _ _ | .blank _ => false

/-- A comment without its closing parenthesis. -/
def isOpen : Piece → Bool
  | .comment _ closed => !closed
  | .word _ | .junk _ | .blank _ => false

def isVisible (p : Piece) : Bool := p.isToken || p.isJunk

section
variable {cs : List Char} {start : Nat} {ps : List Piece} {found : Nat × Piece}

theorem placed_pairwise (start : Nat) (ps : List Piece) :
    (placed start ps).Pairwise fun a b => a.1 + a.2.length ≤ b.1 := by
  induction ps generalizing start with
  | nil => exact .nil
  | cons p ps ih => exact .cons (fun _ later => start_le later) (ih (start + p.length))

/-- Behind its place stands the text of the piece. -/
theorem drop_placed (member : found ∈ placed start ps) :
    ∃ rest, (ps.flatMap text).drop (found.1 - start) = found.2.text ++ rest := by
  induction ps generalizing start with
  | nil => cases member
  | cons p ps ih =>
    rw [List.flatMap_cons]
    rcases List.mem_cons.mp member with rfl | later
    · exact ⟨ps.flatMap text, by rw [Nat.sub_self, List.drop_zero]⟩
    · obtain ⟨rest, behind⟩ := ih later
      have beyond := start_le later
      have place : found.1 - start = p.text.length + (found.1 - (start + p.length)) := by
        rw [length] at beyond ⊢
        omega
      exact ⟨rest, by rw [place, List.drop_length_add_append, behind]⟩

theorem text_ne_nil_of_mem {p : Piece} (member : p ∈ split cs) : p.text ≠ [] := by
  fun_induction split cs with
  | case1 => cases member
  | case2 c rest ih =>
    rcases List.mem_cons.mp member with rfl | later
    · exact scan_text_ne_nil c rest
    · exact ih later

/-- Only the last piece can be an open comment. -/
theorem split_open (cs : List Char) : (split cs).Pairwise fun p _ => p.isOpen = false := by
  have last (c : Char) (rest : List Char) :
      (scan c rest).1.isOpen = false ∨ (scan c rest).2 = [] := by
    unfold scan scanComment
    split
    · exact .inl rfl
    · split
      · split
        · exact .inr rfl
        · exact .inl rfl
      · split <;> exact .inl rfl
  fun_induction split cs with
  | case1 => exact .nil
  | case2 c rest ih =>
    refine .cons (fun q later => ?_) ih
    rcases last c rest with closed | nothing
    · exact closed
    · rw [nothing, split] at later
      cases later

end

/-! Junk. -/

theorem endsJunk_splitJunk {cs : List Char} {k : Nat} (inside : k < (splitJunk cs).1.length) :
    endsJunk (cs.drop k) = false := by
  induction cs generalizing k with
  | nil => cases inside
  | cons c rest ih =>
    rw [splitJunk] at inside
    split at inside
    · cases inside
    · rename_i goesOn
      cases k with
      | zero => simpa using goesOn
      | succ k => exact ih (Nat.lt_of_succ_lt_succ inside)

theorem endsJunk_scan {c : Char} {rest : List Char} (junk : (scan c rest).1.isJunk = true) {k : Nat}
    (inside : k < (scan c rest).1.length) : endsJunk ((c :: rest).drop k) = false := by
  unfold scan scanComment at junk inside
  split at junk
  · cases junk
  · split at junk
    · split at junk <;> cases junk
    · split at junk
      · cases junk
      · rename_i visible other _ none
        rw [if_neg visible, if_neg other, none] at inside
        cases k with
        | zero => simp [endsJunk, visible, other, none]
        | succ k =>
          have later : k < (splitJunk rest).1.length := Nat.lt_of_succ_lt_succ inside
          have behind := endsJunk_splitJunk later
          exact behind

/-- Nothing ends a run of junk before its last character. -/
theorem endsJunk_split {cs : List Char} {start place : Nat} {found : Nat × Piece}
    (member : found ∈ placed start (split cs)) (junk : found.2.isJunk = true)
    (covers : Covers place found) : endsJunk (cs.drop (place - start)) = false := by
  fun_induction split cs generalizing start with
  | case1 => cases member
  | case2 c rest ih =>
    rcases List.mem_cons.mp member with rfl | later
    · exact endsJunk_scan junk (by have := covers.1; have := covers.2; dsimp only at *; omega)
    · have beyond := start_le later
      have reached := covers.1
      have place : place - start =
          (scan c rest).1.text.length + (place - (start + (scan c rest).1.length)) := by
        rw [length] at beyond ⊢
        omega
      have behind := ih later
      rwa [← scan_append c rest, place, List.drop_length_add_append]

/-- What stands behind the code does not end it either. -/
theorem endsJunk_append {cs tail : List Char} (goesOn : endsJunk cs = false)
    (parts : ∀ c ∈ tail.head?, Parts c) : endsJunk (cs ++ tail) = false := by
  cases cs with
  | nil => cases goesOn
  | cons d cs =>
    cases tail with
    | nil => rwa [List.append_nil]
    | cons c rest =>
      have scanned := Word.scan?_parted rest (parts c rfl) (d :: cs)
      rw [List.cons_append] at scanned ⊢
      simpa only [endsJunk, scanned, Option.isSome_map] using goesOn

theorem endsJunk_eq_false_iff {cs : List Char} : endsJunk cs = false ↔
    ∃ c, cs.head? = some c ∧ Text.isBlank c = false ∧ c ≠ '(' ∧ Word.scan? cs = none := by
  cases cs with
  | nil => simp [endsJunk]
  | cons c rest => simp [endsJunk, and_assoc]

end Piece

/-! Places in the line. -/

namespace LineParts
variable {line : List Char} {found : Nat × Piece}

/-- What stands behind the code goes on with no word, and begins with the semicolon if the line has
a trailing comment. -/
theorem line_around (line : List Char) : ∃ before tail : List Char,
    line = before ++ (ofLine line).code ++ tail ∧ before.length = (ofLine line).start ∧
      (∀ c ∈ tail.head?, Parts c) ∧
      ((ofLine line).trailing ≠ none → tail.head? = some ';') := by
  obtain ⟨before, after, front, start, _, ending, clear⟩ := code_around line
  have whole : line = before ++ (ofLine line).code ++ (after ++ line.dropWhile (· != ';')) := by
    rw [← List.append_assoc, ← front]
    exact List.takeWhile_append_dropWhile.symm
  have semicolon : ∀ c ∈ (line.dropWhile (· != ';')).head?, c = ';' := by
    intro c first
    have stopped := List.head?_dropWhile_not (p := (· != ';')) (l := line)
    rw [first] at stopped
    simpa using stopped
  refine ⟨before, _, whole, start, fun c first => ?_, fun trailing => ?_⟩
  · cases after with
    | nil =>
      rw [semicolon c first]
      exact .opening (List.mem_cons_of_mem _ List.mem_cons_self)
    | cons d after =>
      cases first
      exact .blank (ending c List.mem_cons_self)
  · rw [clear trailing, List.nil_append]
    cases rest : (line.dropWhile (· != ';')).head? with
    | some c => rw [semicolon c rest]
    | none =>
      have unbroken := List.dropWhile_eq_nil_iff.mp (List.head?_eq_none_iff.mp rest)
      obtain ⟨_, _, around, _⟩ := Text.trim_around line
      refine absurd (trailing_eq_none_iff.mpr (List.dropWhile_eq_nil_iff.mpr fun c member => ?_))
        trailing
      refine unbroken c ?_
      rw [around]
      exact List.mem_append_left _ (List.mem_append_right _ member)

theorem drop_inside (line : List Char) : ∃ tail : List Char, (∀ c ∈ tail.head?, Parts c) ∧
    ((ofLine line).trailing ≠ none → tail.head? = some ';') ∧
    ∀ k ≤ (ofLine line).code.length,
      line.drop ((ofLine line).start + k) = (ofLine line).code.drop k ++ tail := by
  obtain ⟨before, tail, whole, start, parts, semicolon⟩ := line_around line
  refine ⟨tail, parts, semicolon, fun k inside => ?_⟩
  rw [← start]
  conv_lhs => rw [whole, List.append_assoc, List.drop_length_add_append,
    List.drop_append_of_le_length inside]

theorem code_length_le (line : List Char) :
    (ofLine line).start + (ofLine line).code.length ≤ (ofLine line).stop :=
  Nat.add_le_add_left (List.takeWhile_prefix _).length_le _

/-- In the line too the text of a piece stands behind its place. -/
theorem drop_piece (member : found ∈ (ofLine line).pieces) :
    ∃ rest, line.drop found.1 = found.2.text ++ rest := by
  obtain ⟨tail, _, _, behind⟩ := drop_inside line
  obtain ⟨rest, text⟩ := Piece.drop_placed member
  rw [Piece.flatMap_text_split] at text
  have inside := found_inside member
  have here := behind (found.1 - (ofLine line).start) (by omega)
  rw [Nat.add_sub_cancel' inside.1, text, List.append_assoc] at here
  exact ⟨rest ++ tail, here⟩

theorem under_span (member : found ∈ (ofLine line).pieces) :
    (Piece.span found).under line = found.2.text := by
  obtain ⟨rest, text⟩ := drop_piece member
  have length : ((Piece.span found).stop - (Piece.span found).start).toNat =
      found.2.text.length := by
    change ((↑(found.1 + found.2.length) : Int) - ↑found.1).toNat = _
    rw [Piece.length]
    omega
  rw [Span.under, length]
  change (line.drop found.1).take _ = _
  rw [text, List.take_left]

/-- No word of the line starts in its junk. -/
theorem junk_goesOn (member : found ∈ (ofLine line).pieces) (junk : found.2.isJunk = true)
    {place : Nat} (covers : Piece.Covers place found) :
    Piece.endsJunk (line.drop place) = false := by
  obtain ⟨tail, parts, _, behind⟩ := drop_inside line
  have inside := found_inside member
  have reached := covers.1
  have ahead := covers.2
  have here := behind (place - (ofLine line).start) (by omega)
  rw [Nat.add_sub_cancel' (by omega)] at here
  rw [here]
  exact Piece.endsJunk_append (Piece.endsJunk_split member junk covers) parts

end LineParts

/-! Spelling. -/

theorem upper_of_capital {c letter : Char} (capital : capitalLetter? c = some letter) :
    Text.upper [c] = [letter] := by
  have alone : Text.upper [c] = Text.upperChar c := List.append_nil _
  have ascii (low : c.toNat < 128) : Text.upperChar c = [c.toUpper] := if_pos low
  have single {n : Nat} (same : c.toNat = n) : c = Char.ofNat n := by
    rw [← same, Char.ofNat_toNat]
  rw [alone]
  unfold capitalLetter? at capital
  split at capital
  · rename_i upper
    have bounds := capital_bounds upper
    have kept : c.toUpper = c := Char.toUpper_eq_of_not_isLower (Char.not_isLower_of_isUpper upper)
    rw [ascii (by omega), kept, Option.some.inj capital]
  · split at capital
    · rename_i lower
      have bounds : 97 ≤ c.toNat ∧ c.toNat ≤ 122 := by
        simpa [Char.isLower, UInt32.le_iff_toNat_le] using lower
      rw [ascii (by omega), Option.some.inj capital]
    · split at capital
      · rename_i dotless
        obtain rfl := single dotless
        cases capital
        decide
      · split at capital
        · rename_i long
          obtain rfl := single long
          cases capital
          decide
        · split at capital
          · rename_i other
            rcases other with dotted | kelvin
            · obtain rfl := single dotted
              cases capital
              decide
            · obtain rfl := single kelvin
              cases capital
              decide
          · cases capital

/-! Tokens and reports from the pieces. -/

theorem map_filterMap_eq {α β γ : Type} {f : α → Option β} {g : β → γ} {p : α → Bool} {h : α → γ}
    (each : ∀ a, (f a).map g = if p a = true then some (h a) else none) (l : List α) :
    (l.filterMap f).map g = (l.filter p).map h := by
  rw [List.map_filterMap, ← List.filterMap_eq_map, List.filterMap_filter]
  exact List.filterMap_congr fun a _ => each a

theorem isPrefixOf_append (front back : String) :
    front.toList.isPrefixOf (front ++ back).toList = true := by
  rw [String.toList_append, List.isPrefixOf_iff_prefix]
  exact List.prefix_append _ _

theorem ignores_junk {d : Diagnostic} {text : List Char} (same : d.message = junkMessage text) :
    d.ignores = true := by
  have whole : junkMessage text = _ ++ (String.ofList text ++ "'") := String.append_assoc
  rw [Diagnostic.ignores, same.trans whole]
  exact isPrefixOf_append _ _

theorem ignores_unclosed {d : Diagnostic} (same : d.message = unclosedMessage) :
    d.ignores = false := by
  rw [Diagnostic.ignores, same]
  decide

theorem ofPiece?_span (number : Int) (found : Nat × Piece) :
    (Token.ofPiece? number found.1 found.2).map Token.span =
      if found.2.isToken = true then some (Piece.span found) else none := by
  obtain ⟨start, p⟩ := found
  cases p <;> rfl

/-- A report about a piece lies over it, and says that it is junk or an open comment. -/
theorem diagnostic?_cases {number : Int} {found : Nat × Piece} {d : Diagnostic}
    (report : found.2.diagnostic? number found.1 = some d) : d.span = Piece.span found ∧
      (found.2.isJunk = true ∧ d.message = junkMessage found.2.text ∨
        found.2.isOpen = true ∧ d.message = unclosedMessage) := by
  obtain ⟨start, p⟩ := found
  cases p with
  | blank c => cases report
  | word w => cases report
  | junk text =>
    cases report
    exact ⟨rfl, .inl ⟨rfl, rfl⟩⟩
  | comment text closed =>
    cases closed with
    | true => cases report
    | false =>
      cases report
      exact ⟨rfl, .inr ⟨rfl, rfl⟩⟩

theorem diagnostic?_span (number : Int) (found : Nat × Piece) :
    ((found.2.diagnostic? number found.1).filter Diagnostic.ignores).map Diagnostic.span =
      if found.2.isJunk = true then some (Piece.span found) else none := by
  obtain ⟨start, p⟩ := found
  cases p with
  | blank c => rfl
  | word w => rfl
  | junk text =>
    rw [Piece.diagnostic?, Option.filter_some, ignores_junk rfl]
    rfl
  | comment text closed =>
    cases closed with
    | true => rfl
    | false =>
      rw [Piece.diagnostic?, Option.filter_some, ignores_unclosed rfl]
      rfl

section
variable {number : Int} {line : List Char} {found : Nat × Piece} {place : Nat}

theorem covers_span : (Piece.span found).covers place = true ↔ Piece.Covers place found := by
  rw [Span.covers_iff, Piece.span, Piece.Covers]
  dsimp only
  omega

theorem pieces_open (line : List Char) :
    (LineParts.ofLine line).pieces.Pairwise fun a _ => a.2.isOpen = false := by
  have last := Piece.split_open (LineParts.ofLine line).code
  rwa [← placed_pieces (LineParts.ofLine line).start (Piece.split (LineParts.ofLine line).code),
    List.pairwise_map] at last

/-- An open comment is the last piece. -/
theorem pieces_last (member : found ∈ (LineParts.ofLine line).pieces)
    (isOpen : found.2.isOpen = true) :
    ∃ front, (LineParts.ofLine line).pieces = front ++ [found] := by
  obtain ⟨front, back, split⟩ := List.append_of_mem member
  have last := pieces_open line
  rw [split, List.pairwise_append, List.pairwise_cons] at last
  cases back with
  | nil => exact ⟨front, split⟩
  | cons next back =>
    have closed := last.2.1.1 next List.mem_cons_self
    rw [isOpen] at closed
    cases closed

/-- What stands behind the code of a line with a trailing comment. -/
theorem trailing_inside {t : Token}
    (token : (LineParts.ofLine line).trailingToken? number = some t) :
    (line)[t.start]? = some ';' ∧ t.start < t.stop ∧ t.stop = (LineParts.ofLine line).stop := by
  obtain ⟨_, _, start, stop⟩ := trailingToken?_start token
  have some : (LineParts.ofLine line).trailing ≠ none := by
    obtain ⟨text, trailing, _⟩ := Option.map_eq_some_iff.mp token
    rw [trailing]
    exact Option.some_ne_none text
  obtain ⟨tail, _, semicolon, behind⟩ := LineParts.drop_inside line
  have here := behind _ le_rfl
  rw [List.drop_length, List.nil_append, ← start] at here
  refine ⟨?_, ?_, stop⟩
  · rw [← List.head?_drop, here, semicolon some]
  · have filled := List.length_pos_iff.mpr (mt LineParts.trailing_eq_none_iff.mpr some)
    have whole := congrArg List.length
      (List.takeWhile_append_dropWhile (p := (· != ';')) (l := Text.trim line))
    rw [List.length_append] at whole
    rw [start, stop]
    change _ + ((Text.trim line).takeWhile (· != ';')).length < _ + (Text.trim line).length
    omega

/-- A token of a line that is not all comment is that of a piece, or the comment behind the code. -/
theorem tokens_cases (code : isCommentLine (LineParts.ofLine line).stripped = false) {t : Token}
    (member : t ∈ tokens number line) :
    (∃ found ∈ (LineParts.ofLine line).pieces, Token.ofPiece? number found.1 found.2 = some t) ∨
      (LineParts.ofLine line).trailingToken? number = some t := by
  rw [tokens_eq number code] at member
  rcases List.mem_append.mp member with piece | trailing
  · exact .inl (List.mem_filterMap.mp piece)
  · exact .inr (Option.mem_toList.mp trailing)

/-! The spans of a line. -/

/-- The spans of the tokens and the ignored texts of a line: those of its pieces, and then that of
the trailing comment. -/
def spans (number : Int) (line : List Char) : List Span :=
  ((LineParts.ofLine line).pieces.filter (·.2.isVisible)).map Piece.span ++
    ((LineParts.ofLine line).trailingToken? number).toList.map Token.span

theorem tokens_spans (code : isCommentLine (LineParts.ofLine line).stripped = false) :
    (tokens number line).map Token.span =
      ((LineParts.ofLine line).pieces.filter (·.2.isToken)).map Piece.span ++
        ((LineParts.ofLine line).trailingToken? number).toList.map Token.span := by
  rw [tokens_eq number code, List.map_append, map_filterMap_eq (ofPiece?_span number)]

theorem ignored_spans (code : isCommentLine (LineParts.ofLine line).stripped = false) :
    ((tokenDiagnostics number line).filter Diagnostic.ignores).map Diagnostic.span =
      ((LineParts.ofLine line).pieces.filter (·.2.isJunk)).map Piece.span := by
  rw [tokenDiagnostics_eq number code, List.filter_filterMap,
    map_filterMap_eq (diagnostic?_span number)]

/-- A visible piece is either a token or junk. -/
theorem visible_perm (l : List (Nat × Piece)) :
    (l.filter (·.2.isVisible)).Perm (l.filter (·.2.isToken) ++ l.filter (·.2.isJunk)) := by
  have tokens : (l.filter (·.2.isVisible)).filter (·.2.isToken) = l.filter (·.2.isToken) := by
    rw [List.filter_filter]
    exact List.filter_congr fun found _ => by cases found.2 <;> rfl
  have junk : (l.filter (·.2.isVisible)).filter (!·.2.isToken) = l.filter (·.2.isJunk) := by
    rw [List.filter_filter]
    exact List.filter_congr fun found _ => by cases found.2 <;> rfl
  have parted := List.filter_append_perm (·.2.isToken) (l.filter (·.2.isVisible))
  rw [tokens, junk] at parted
  exact parted.symm

theorem mem_spans {s : Span} (member : s ∈ spans number line) :
    (∃ found ∈ (LineParts.ofLine line).pieces, Piece.span found = s) ∨
      ∃ t, (LineParts.ofLine line).trailingToken? number = some t ∧ t.span = s := by
  rcases List.mem_append.mp member with piece | trailing
  · obtain ⟨found, visible, rfl⟩ := List.mem_map.mp piece
    exact .inl ⟨found, List.mem_of_mem_filter visible, rfl⟩
  · obtain ⟨t, token, rfl⟩ := List.mem_map.mp trailing
    exact .inr ⟨t, Option.mem_toList.mp token, rfl⟩

theorem fits_spans {s : Span} (member : s ∈ spans number line) : s.Fits line := by
  have most := LineParts.stop_le_length line
  rcases mem_spans member with ⟨found, piece, rfl⟩ | ⟨t, trailing, rfl⟩
  · have inside := LineParts.found_inside piece
    have within := LineParts.code_length_le line
    have filled := List.length_pos_iff.mpr (Piece.text_ne_nil_of_mem (Piece.mem_of_placed piece))
    constructor <;> dsimp only [Piece.span, Piece.length] at * <;> omega
  · obtain ⟨_, filled, stop⟩ := trailing_inside trailing
    constructor <;> dsimp only [Token.span] <;> omega

theorem ordered_spans (number : Int) (line : List Char) :
    (spans number line).Pairwise Span.Before := by
  rw [spans, List.pairwise_append, List.pairwise_map]
  refine ⟨((Piece.placed_pairwise _ _).filter _).imp fun before => ?_, ?_, ?_⟩
  · exact Int.ofNat_le.mpr before
  · cases (LineParts.ofLine line).trailingToken? number with
    | none => exact .nil
    | some t => exact List.pairwise_singleton _ _
  · intro a piece b trailing
    obtain ⟨found, visible, rfl⟩ := List.mem_map.mp piece
    obtain ⟨t, token, rfl⟩ := List.mem_map.mp trailing
    have inside := LineParts.found_inside (List.mem_of_mem_filter visible)
    have start := (trailingToken?_start (Option.mem_toList.mp token)).2.2.1
    refine Int.ofNat_le.mpr ?_
    omega

/-- A visible character lies under a visible piece or under the trailing comment. -/
theorem exists_span (number : Int) {c : Char} (here : (line)[place]? = some c)
    (visible : Text.isBlank c = false) :
    ∃ s ∈ spans number line, s.covers place = true := by
  obtain ⟨low, high⟩ := LineParts.visible_inside here visible
  by_cases inside : place < (LineParts.ofLine line).start + (LineParts.ofLine line).code.length
  · obtain ⟨found, at'⟩ := LineParts.exists_pieceAt? ⟨low, inside⟩
    obtain ⟨member, covers⟩ := Piece.at?_eq_some_iff.mp at'
    refine ⟨Piece.span found, List.mem_append_left _ ?_, covers_span.mpr covers⟩
    refine List.mem_map_of_mem (List.mem_filter.mpr ⟨member, ?_⟩)
    obtain ⟨rest, text⟩ := LineParts.drop_piece member
    have piece := Piece.mem_of_placed member
    obtain ⟨start, p⟩ := found
    cases p with
    | word w => rfl
    | comment text closed => rfl
    | junk text => rfl
    | blank d =>
      have same : place = start := by
        have reached := covers.1
        have ahead := covers.2
        dsimp only [Piece.length, Piece.text, List.length_singleton] at reached ahead
        omega
      have first := congrArg List.head? text
      rw [List.head?_drop, ← same, here] at first
      cases first
      rw [isBlank_of_mem_split piece] at visible
      cases visible
  · cases trailing : (LineParts.ofLine line).trailing with
    | none => rw [LineParts.stop_of_unbroken trailing] at high; omega
    | some text =>
      refine ⟨⟨(LineParts.ofLine line).start + (LineParts.ofLine line).code.length,
        (LineParts.ofLine line).stop⟩, List.mem_append_right _ ?_, Span.covers_iff.mpr ?_⟩
      · rw [LineParts.trailingToken?, trailing]
        exact List.mem_singleton.mpr rfl
      · dsimp only
        omega

theorem partition_spans (number : Int) (line : List Char) :
    Span.Partition line (spans number line) where
  fits _ := fits_spans
  ordered := ordered_spans number line
  once place c here visible := by
    obtain ⟨s, member, covers⟩ := exists_span number here visible
    exact Span.countP_covers (ordered_spans number line) member covers

/-! What is said of the spans. -/

theorem word_under {t : Token} (member : t ∈ tokens number line) (word : t.kind ≠ .comment) :
    ∃ spelt, t.span.under line = spelt :: t.value ∧ Text.upper [spelt] = t.letter := by
  cases comment : isCommentLine (LineParts.ofLine line).stripped with
  | true =>
    rw [tokens_commentLine number comment] at member
    rw [List.mem_singleton.mp member] at word
    exact absurd rfl word
  | false =>
    rcases tokens_cases comment member with ⟨⟨start, p⟩, piece, token⟩ | trailing
    · have under := LineParts.under_span piece
      have found := Piece.mem_of_placed piece
      cases p with
      | blank c => cases token
      | junk text => cases token
      | comment text closed => cases token; exact absurd rfl word
      | word w =>
        cases token
        exact ⟨w.spelt, under, upper_of_capital (legal_of_mem_split found).letter⟩
    · exact absurd (trailingToken?_start trailing).1 word

theorem ignored_under (code : isCommentLine (LineParts.ofLine line).stripped = false)
    {d : Diagnostic} (member : d ∈ tokenDiagnostics number line) (ignores : d.ignores = true) :
    d.message = junkMessage (d.span.under line) ∧
      ∀ place, d.span.covers place = true → ∃ c, (line)[place]? = some c ∧
        Text.isBlank c = false ∧ c ≠ '(' ∧ Word.scan? (line.drop place) = none := by
  rw [tokenDiagnostics_eq number code] at member
  obtain ⟨found, piece, report⟩ := List.mem_filterMap.mp member
  obtain ⟨span, ⟨junk, message⟩ | ⟨_, message⟩⟩ := diagnostic?_cases report
  · rw [span, LineParts.under_span piece]
    refine ⟨message, fun place covers => ?_⟩
    have goesOn := LineParts.junk_goesOn piece junk (covers_span.mp covers)
    rwa [Piece.endsJunk_eq_false_iff, List.head?_drop] at goesOn
  · rw [ignores_unclosed message] at ignores
    cases ignores

/-- At most one comment is open. -/
theorem unclosed_once (code : isCommentLine (LineParts.ofLine line).stripped = false) :
    (tokenDiagnostics number line).countP (·.message = unclosedMessage) ≤ 1 := by
  refine countP_le_one ?_
  rw [tokenDiagnostics_eq number code, List.pairwise_filterMap]
  refine (pieces_open line).imp fun {a b} closed d report _ _ both => ?_
  have unclosed := of_decide_eq_true both.1
  rcases (diagnostic?_cases report).2 with ⟨_, message⟩ | ⟨isOpen, _⟩
  · have ignores := ignores_junk message
    rw [ignores_unclosed unclosed] at ignores
    cases ignores
  · rw [isOpen] at closed
    cases closed

theorem unclosed_last (code : isCommentLine (LineParts.ofLine line).stripped = false)
    {d : Diagnostic} (member : d ∈ tokenDiagnostics number line)
    (unclosed : d.message = unclosedMessage) : ∃ t,
      ((tokens number line).filter (·.parenthesised line)).getLast? = some t ∧
        d.span = t.span := by
  rw [tokenDiagnostics_eq number code] at member
  obtain ⟨found, piece, report⟩ := List.mem_filterMap.mp member
  obtain ⟨span, ⟨_, message⟩ | ⟨isOpen, _⟩⟩ := diagnostic?_cases report
  · have ignores := ignores_junk message
    rw [ignores_unclosed unclosed] at ignores
    cases ignores
  · obtain ⟨front, last⟩ := pieces_last piece isOpen
    obtain ⟨rest, text⟩ := LineParts.drop_piece piece
    have behind : ((LineParts.ofLine line).trailingToken? number).toList.filter
        (·.parenthesised line) = [] := by
      rw [List.filter_eq_nil_iff]
      intro t trailing
      have semicolon := (trailing_inside (Option.mem_toList.mp trailing)).1
      simp [Token.parenthesised, semicolon]
    obtain ⟨start, p⟩ := found
    cases p with
    | blank c => cases isOpen
    | junk text => cases isOpen
    | word w => cases isOpen
    | comment inner closed =>
      have opening : (line)[start]? = some '(' := by
        rw [← List.head?_drop, text]
        rfl
      refine ⟨⟨.comment, inner, number, start, start + (Piece.comment inner closed).length, []⟩, ?_,
        span⟩
      rw [tokens_eq number code, last, List.filter_append, behind, List.append_nil,
        List.filterMap_append, List.filter_append]
      simp [Token.ofPiece?, Token.parenthesised, opening]

theorem spans_perm (code : isCommentLine (LineParts.ofLine line).stripped = false) :
    (spans number line).Perm ((tokens number line).map Token.span ++
      ((tokenDiagnostics number line).filter Diagnostic.ignores).map Diagnostic.span) := by
  have visible := (visible_perm (LineParts.ofLine line).pieces).map Piece.span
  rw [List.map_append] at visible
  rw [tokens_spans code, ignored_spans code, spans]
  refine (visible.append_right _).trans ?_
  rw [List.append_assoc, List.append_assoc]
  exact List.perm_append_comm.append_left _

theorem partition_code (code : isCommentLine (LineParts.ofLine line).stripped = false) :
    ∃ spans, Span.Partition line spans ∧
      ((tokens number line).map Token.span).Sublist spans ∧
      (((tokenDiagnostics number line).filter Diagnostic.ignores).map Diagnostic.span).Sublist
        spans ∧
      spans.Perm ((tokens number line).map Token.span ++
        ((tokenDiagnostics number line).filter Diagnostic.ignores).map Diagnostic.span) := by
  refine ⟨spans number line, partition_spans number line, ?_, ?_, spans_perm code⟩
  · rw [tokens_spans code]
    refine .append (.map _ (List.monotone_filter_right _ fun found token => ?_)) (.refl _)
    rw [Piece.isVisible, token, Bool.true_or]
  · rw [ignored_spans code]
    refine (List.Sublist.map _ (List.monotone_filter_right _ fun found junk => ?_)).trans
      (List.sublist_append_left _ _)
    rw [Piece.isVisible, junk, Bool.or_true]

/-- A line that is all comment lies under its one token. -/
theorem account_commentLine (number : Int)
    (comment : isCommentLine (LineParts.ofLine line).stripped = true) :
    Accounts line (tokens number line) (tokenDiagnostics number line) := by
  have silent : tokenDiagnostics number line = [] := if_pos (.inr comment)
  have filled : 0 < (LineParts.ofLine line).stripped.length := by
    rw [List.length_pos_iff]
    intro empty
    rw [empty] at comment
    cases comment
  have whole : Span.Partition line
      [⟨(LineParts.ofLine line).start, (LineParts.ofLine line).stop⟩] := by
    have most := LineParts.stop_le_length line
    have stop : (LineParts.ofLine line).stop =
      (LineParts.ofLine line).start + (LineParts.ofLine line).stripped.length := rfl
    refine ⟨?_, List.pairwise_singleton _ _, fun place c here visible => ?_⟩
    · rw [List.forall_mem_singleton]
      constructor <;> dsimp only <;> omega
    · obtain ⟨low, high⟩ := LineParts.visible_inside here visible
      refine Span.countP_covers (List.pairwise_singleton _ _) List.mem_cons_self ?_
      rw [Span.covers_iff]
      dsimp only
      omega
  rw [silent]
  refine ⟨⟨_, whole, ?_, List.nil_sublist _, ?_⟩, fun t => word_under, nofun, Nat.zero_le 1, nofun⟩
  · rw [tokens_commentLine number comment]
    exact .refl _
  · rw [tokens_commentLine number comment]
    exact .refl _

end

/-- The spans of the tokens and of the ignored texts share out a line: they lie in it from left to
right and without an overlap, and each visible character is under one of them. Under a word token
stand its letter, in either case, and its value. Under an ignored text there is no blank and no
parenthesis, and no word starts in it. At most one comment is reported to be open, and it is the
last one in parentheses. -/
theorem tokens_account (number : Int) (line : List Char) :
    Accounts line (tokens number line) (tokenDiagnostics number line) := by
  cases comment : isCommentLine (LineParts.ofLine line).stripped with
  | true => exact account_commentLine number comment
  | false => exact ⟨partition_code comment, fun t => word_under, fun d => ignored_under comment,
      unclosed_once comment, fun d => unclosed_last comment⟩

end Gcode

end Toolpath
