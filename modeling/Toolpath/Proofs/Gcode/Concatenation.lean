import Mathlib
import Toolpath.Proofs.Gcode.Outcome

/-! Reading two texts with a line feed between them. What is read from a line depends on the place
of the line only through its number, so the second text is read as it is on its own, with its lines
counted on and with the modal values that the first one leaves. -/
namespace Toolpath
open Decimal

/-- The move of a line that stands this much further down. -/
def Move.shift {α : Type} (offset : Int) (move : Move α) : Move α :=
  { move with line := move.line + offset }

namespace Diagnostic

def shift (offset : Int) (d : Diagnostic) : Diagnostic := { d with line := d.line + offset }

/-! Sorting is stable, so reports about later lines are sorted by themselves. -/

theorem before_of_line_lt {a b : Diagnostic} (less : a.line < b.line) : a.before b = true := by
  simp [before, less]

theorem before_shift (offset : Int) (a b : Diagnostic) :
    (a.shift offset).before (b.shift offset) = a.before b := by
  change (decide (a.line + offset < b.line + offset) ||
    (a.line + offset == b.line + offset && decide (a.start ≤ b.start))) = _
  rw [before, Bool.eq_iff_iff]
  simp

/-- A report goes in front of the first one that it may come before. -/
theorem sorted_cons {d : Diagnostic} {ds front back : List Diagnostic}
    (others : sorted ds = front ++ back) (first : ∀ e ∈ front, (!d.before e) = true)
    (stops : ∀ e ∈ back, d.before e = true) : sorted (d :: ds) = front ++ d :: back := by
  obtain ⟨front', back', whole, others', first'⟩ :=
    List.mergeSort_cons before_trans before_total d ds
  have ordered := List.pairwise_mergeSort before_trans before_total (d :: ds)
  rw [whole, List.pairwise_append, List.pairwise_cons] at ordered
  have stop {es : List Diagnostic} (stops : ∀ e ∈ es, d.before e = true) :
      ∀ e ∈ es.head?, (!d.before e) = false := by
    intro e head
    rw [stops e (List.mem_of_mem_head? head)]
    rfl
  have same : front' ++ back' = front ++ back := others'.symm.trans others
  have fronts := congrArg (List.takeWhile fun e => !d.before e) same
  have backs := congrArg (List.dropWhile fun e => !d.before e) same
  rw [takeWhile_append_stop first (stop stops),
    takeWhile_append_stop first' (stop ordered.2.1.1)] at fronts
  rw [dropWhile_append_stop first (stop stops),
    dropWhile_append_stop first' (stop ordered.2.1.1)] at backs
  rw [sorted, whole, fronts, backs]

theorem sorted_append {ds es : List Diagnostic} (apart : ∀ d ∈ ds, ∀ e ∈ es, d.line < e.line) :
    sorted (ds ++ es) = sorted ds ++ sorted es := by
  induction ds with
  | nil => simp [sorted]
  | cons d ds ih =>
    obtain ⟨front, back, whole, others, first⟩ :=
      List.mergeSort_cons before_trans before_total d ds
    have ordered := List.pairwise_mergeSort before_trans before_total (d :: ds)
    rw [whole, List.pairwise_append, List.pairwise_cons] at ordered
    have rest := ih fun c member => apart c (List.mem_cons_of_mem d member)
    rw [show sorted ds = front ++ back from others, List.append_assoc] at rest
    rw [List.cons_append, sorted_cons rest first, show sorted (d :: ds) = front ++ d :: back from whole,
      List.append_assoc, List.cons_append]
    intro e member
    rcases List.mem_append.mp member with inside | later
    · exact ordered.2.1.1 e inside
    · exact before_of_line_lt (apart d List.mem_cons_self e (List.mem_mergeSort.mp later))

theorem sorted_shift (offset : Int) (ds : List Diagnostic) :
    sorted (ds.map (shift offset)) = (sorted ds).map (shift offset) :=
  (List.map_mergeSort fun a _ b _ => (before_shift offset a b).symm).symm

end Diagnostic

namespace Gcode
/-! What is read from a line, wherever it stands. -/

def Token.shift (offset : Int) (t : Token) : Token := { t with line := t.line + offset }

theorem Token.ofPiece?_shift (offset number : Int) (start : Nat) (p : Piece) :
    ofPiece? (number + offset) start p = (ofPiece? number start p).map (shift offset) := by
  cases p <;> rfl

theorem Piece.diagnostic?_shift (offset number : Int) (start : Nat) (p : Piece) :
    p.diagnostic? (number + offset) start =
      (p.diagnostic? number start).map (Diagnostic.shift offset) := by
  rcases p with _ | ⟨_, _ | _⟩ | _ | _ <;> rfl

theorem tokens_shift (offset number : Int) (line : List Char) :
    tokens (number + offset) line = (tokens number line).map (Token.shift offset) := by
  cases code : isCommentLine (LineParts.ofLine line).stripped with
  | true => rw [tokens_commentLine _ code, tokens_commentLine _ code]; rfl
  | false =>
    have trailing (parts : LineParts) : parts.trailingToken? (number + offset) =
        (parts.trailingToken? number).map (Token.shift offset) := by
      simp only [LineParts.trailingToken?, Option.map_map]
      rfl
    rw [tokens_eq _ code, tokens_eq _ code, trailing, List.map_append, List.map_filterMap,
      Option.toList_map]
    simp only [Token.ofPiece?_shift]

theorem tokenDiagnostics_shift (offset number : Int) (line : List Char) :
    tokenDiagnostics (number + offset) line =
      (tokenDiagnostics number line).map (Diagnostic.shift offset) := by
  unfold tokenDiagnostics
  simp only
  split
  · rfl
  · rw [List.map_filterMap]
    simp only [Piece.diagnostic?_shift]

namespace Block

def shift (offset : Int) (b : Block) : Block := { b with line := b.line + offset }

theorem fill_shift (offset : Int) (b : Block) (t : Token) (present : Option Float) (set : Block) :
    (b.shift offset).fill (t.shift offset) present (set.shift offset) =
      Prod.map (shift offset) (List.map (Diagnostic.shift offset)) (b.fill t present set) := by
  cases present <;> rfl

theorem takeValue_shift (offset : Int) (b : Block) (t : Token) (value : Float) :
    (b.shift offset).takeValue (t.shift offset) value =
      Prod.map (shift offset) (List.map (Diagnostic.shift offset)) (b.takeValue t value) := by
  unfold takeValue
  have kind : (t.shift offset).kind = t.kind := rfl
  rw [kind]
  cases t.kind with
  | other | comment | g => rfl
  | x => exact fill_shift offset b t b.x { b with x := some value }
  | y => exact fill_shift offset b t b.y { b with y := some value }
  | f =>
    simp only
    split
    · rfl
    · exact fill_shift offset b t b.f { b with f := some value }

theorem take_shift (offset : Int) (b : Block) (t : Token) :
    (b.shift offset).take (t.shift offset) =
      Prod.map (shift offset) (List.map (Diagnostic.shift offset)) (b.take t) := by
  unfold take
  have kind : (t.shift offset).kind = t.kind := rfl
  have number : (t.shift offset).number? = t.number? := rfl
  rw [kind, number]
  cases t.kind with
  | other | comment => rfl
  | g | x | y | f =>
    cases t.number? with
    | none => rfl
    | some value => exact takeValue_shift offset b t value

theorem takeAll_shift (offset : Int) (b : Block) (ts : List Token) :
    (b.shift offset).takeAll (ts.map (Token.shift offset)) =
      Prod.map (shift offset) (List.map (Diagnostic.shift offset)) (b.takeAll ts) := by
  induction ts generalizing b with
  | nil => rfl
  | cons t ts ih =>
    rw [List.map_cons, takeAll, take_shift]
    simp only [Prod.map_fst, Prod.map_snd, ih, takeAll, Prod.map_apply, List.map_append]

theorem bothDiagnostic?_shift (offset : Int) (b : Block) :
    (b.shift offset).bothDiagnostic? = b.bothDiagnostic?.map (Diagnostic.shift offset) := by
  unfold bothDiagnostic?
  rw [apply_ite (List.map _)]
  rfl

theorem ofLine_shift (offset number : Int) (line : List Char) :
    ofLine (number + offset) line = Prod.map (Option.map (shift offset))
      (List.map (Diagnostic.shift offset)) (ofLine number line) := by
  have kinds : ((tokens number line).map (Token.shift offset)).all (·.kind == .comment) =
      (tokens number line).all (·.kind == .comment) := List.all_map
  have taken := takeAll_shift offset (empty number (tokens number line).length)
    (tokens number line)
  unfold ofLine
  simp only [tokens_shift, tokenDiagnostics_shift, kinds, List.length_map]
  split
  · rfl
  · simp only [Prod.map_apply, List.map_append, ← bothDiagnostic?_shift]
    unfold empty shift at taken
    rw [taken]
    rfl

end Block

namespace Program

/-- What is read from a line that stands further down. -/
def shiftReading (offset : Int) :
    Option Block × List Diagnostic → Option Block × List Diagnostic :=
  Prod.map (Option.map (Block.shift offset)) (List.map (Diagnostic.shift offset))

theorem readLines_append (number : Int) (lines rest : List (List Char)) :
    readLines number (lines ++ rest) =
      readLines number lines ++ readLines (number + lines.length) rest := by
  induction lines generalizing number with
  | nil => simp [readLines]
  | cons line lines ih =>
    rw [List.cons_append, readLines, ih, readLines, List.length_cons, List.cons_append,
      Int.add_assoc, Int.add_comm 1]
    rfl

theorem readLines_shift (offset number : Int) (lines : List (List Char)) :
    readLines (number + offset) lines = (readLines number lines).map (shiftReading offset) := by
  induction lines generalizing number with
  | nil => rfl
  | cons line lines ih =>
    rw [readLines, readLines, List.map_cons, Block.ofLine_shift, ← ih, Int.add_right_comm]
    rfl

theorem blocks_shift (offset : Int) (readings : List (Option Block × List Diagnostic)) :
    (readings.map (shiftReading offset)).filterMap (·.1) =
      (readings.filterMap (·.1)).map (Block.shift offset) := by
  rw [List.filterMap_map, List.map_filterMap]
  rfl

theorem reports_shift (offset : Int) (readings : List (Option Block × List Diagnostic)) :
    (readings.map (shiftReading offset)).flatMap (·.2) =
      (readings.flatMap (·.2)).map (Diagnostic.shift offset) := by
  rw [List.flatMap_map, List.map_flatMap]
  rfl

end Program

namespace Modal

theorem afterBlock_shift (offset : Int) (m : Modal) (b : Block) :
    m.afterBlock (b.shift offset) = m.afterBlock b := rfl

theorem after_shift (offset : Int) (m : Modal) (blocks : List Block) :
    m.after (blocks.map (Block.shift offset)) = m.after blocks := List.foldl_map

theorem after_append (m : Modal) (blocks rest : List Block) :
    m.after (blocks ++ rest) = (m.after blocks).after rest := List.foldl_append

theorem moves_shift (offset : Int) (m : Modal) (blocks : List Block) :
    m.moves (blocks.map (Block.shift offset)) = (m.moves blocks).map (Move.shift offset) := by
  induction blocks generalizing m with
  | nil => rfl
  | cons b blocks ih =>
    have kind : (b.shift offset).kind? = b.kind? := rfl
    rw [List.map_cons, moves, moves]
    simp only [kind, afterBlock_shift, ih]
    cases b.kind? <;> rfl

theorem moves_append (m : Modal) (blocks rest : List Block) :
    m.moves (blocks ++ rest) = m.moves blocks ++ (m.after blocks).moves rest := by
  induction blocks generalizing m with
  | nil => rfl
  | cons b blocks ih =>
    rw [List.cons_append, moves, moves]
    simp only [ih]
    cases b.kind? <;> rfl

end Modal

/-! The lines of both texts. -/

/-- The blocks of a text that is read on its own. -/
def Program.blocks (text : List Char) : List Block :=
  (readLines 1 (Text.splitLines text)).filterMap (·.1)


theorem splitLines_newline (a b : List Char) :
    Text.splitLines (a ++ '\n' :: b) = Text.splitLines a ++ Text.splitLines b := by
  induction a with
  | nil =>
    cases lines : Text.splitLines b with
    | nil => exact absurd lines (Text.splitLines_ne_nil b)
    | cons line rest =>
      change Text.splitLines ('\n' :: b) = [] :: line :: rest
      rw [Text.splitLines, lines]
      rfl
  | cons c a ih =>
    rw [List.cons_append, Text.splitLines, ih, Text.splitLines]
    cases lines : Text.splitLines a with
    | nil => exact absurd lines (Text.splitLines_ne_nil a)
    | cons line lines =>
      simp only [List.cons_append]
      split <;> rfl

/-- The readings of the lines of both texts, those of the second one counted on. -/
theorem readLines_newline (a b : List Char) :
    Program.readLines 1 (Text.splitLines (a ++ '\n' :: b)) =
      Program.readLines 1 (Text.splitLines a) ++
        (Program.readLines 1 (Text.splitLines b)).map
          (Program.shiftReading (Text.splitLines a).length) := by
  rw [splitLines_newline, Program.readLines_append, Program.readLines_shift]

theorem bounds?_shift (offset : Int) (moves : List (Move Float)) :
    Envelope.bounds? (moves.map (Move.shift offset)) = Envelope.bounds? moves := List.foldl_map

/-- A program and a text after it: the text is read from the modal values that the program leaves,
and its lines are counted on. The envelope is the box around the moves of both, and the default one
if neither moves. -/
def Program.followedBy (p : Program) (text : List Char) : Program where
  moves := p.moves ++ (p.final.moves (blocks text)).map (Move.shift p.totalLines)
  envelope := (Envelope.union? (Envelope.bounds? p.moves)
    (Envelope.bounds? (p.final.moves (blocks text)))).getD .default
  totalLines := p.totalLines + (parse text).totalLines
  diagnostics := p.diagnostics ++ (parse text).diagnostics.map (Diagnostic.shift p.totalLines)
  final := p.final.after (blocks text)

/-- The reports about the first text all stand before those about the second one. -/
theorem sorted_reports (a b : List Char) :
    Diagnostic.sorted ((Program.readLines 1 (Text.splitLines a)).flatMap (·.2) ++
      ((Program.readLines 1 (Text.splitLines b)).flatMap (·.2)).map
        (Diagnostic.shift (Text.splitLines a).length)) =
      ((Program.parse a).followedBy b).diagnostics := by
  rw [Diagnostic.sorted_append, Diagnostic.sorted_shift]
  · rfl
  · intro d member e later
    obtain ⟨e, inside, rfl⟩ := List.mem_map.mp later
    have before := (Program.warning_of_mem_readLines member).2
    have after := (Program.warning_of_mem_readLines inside).2
    change d.line < e.line + (Text.splitLines a).length
    omega

/-- Moves counted on have the box that they had. -/
theorem ofMoves_followedBy (a b : List Char) :
    Envelope.ofMoves ((Program.parse a).followedBy b).moves =
      ((Program.parse a).followedBy b).envelope := by
  have finite : (Program.parse a).final.Finite :=
    Modal.finite_start.after Program.finite_of_mem_readLines
  have moves : ∀ move ∈ (Program.parse a).moves, Envelope.FiniteTarget move :=
    fun move member => (finite_of_mem_moves member).target
  have others : ∀ move ∈ ((Program.parse a).final.moves (Program.blocks b)).map
      (Move.shift (Program.parse a).totalLines), Envelope.FiniteTarget move :=
    List.forall_mem_map.mpr fun move member =>
      (finite.moves Program.finite_of_mem_readLines move member).target
  have boxes := Envelope.bounds?_append moves others
  rw [bounds?_shift] at boxes
  exact congrArg (Option.getD · .default) boxes

/-- Reading two texts with a line feed between them is reading the one and then the other. -/
theorem parse_append (a b : List Char) :
    Program.parse (a ++ '\n' :: b) = (Program.parse a).followedBy b := by
  rw [Program.parse, Program.ofLines, readLines_newline]
  simp only [List.filterMap_append, Program.blocks_shift, Modal.moves_append, Modal.moves_shift,
    Modal.after_append, Modal.after_shift, List.flatMap_append, Program.reports_shift,
    splitLines_newline, List.length_append]
  rw [sorted_reports]
  have envelope := ofMoves_followedBy a b
  exact congrArg (fun box => ({ (Program.parse a).followedBy b with envelope := box } : Program))
    envelope

end Gcode

end Toolpath
