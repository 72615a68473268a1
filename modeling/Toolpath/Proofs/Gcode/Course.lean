import Mathlib
import Toolpath.Proofs.Gcode.Outcome

/-! Reading a program line by line. The values in effect, the moves and the box around them are
carried along together: a motion line adds one move, and the box grows to hold where it leads. What
one line keeps of them, all lines keep, so that whatever the text is, the moves are in the order of
their lines, the final values are those of the last move, and the envelope is the least box around
the moves. -/
namespace Toolpath.Gcode

/-- How far reading has come. There is no box before the first move. -/
structure Course where
  modal : Modal
  box? : Option (Envelope Float)
  moves : List (Move Float)

/-- The values of the last move, zeros if there is none. -/
def Modal.ofMoves (moves : List (Move Float)) : Modal :=
  match moves.getLast? with
  | none => .start
  | some move => ⟨move.x, move.y, move.feed⟩

namespace Course

def start : Course := ⟨.start, none, []⟩

/-- A motion leads where its values and those carried along say. -/
def advance (c : Course) (kind : MoveKind) (b : Block) : Course :=
  let next := c.modal.advance b.x b.y b.f
  { modal := next
    box? := some (Envelope.extend c.box? next.x next.y)
    moves := c.moves ++ [⟨kind, next.x, next.y, next.feed, b.line⟩] }

/-- Lines without words, and those whose words ask for no motion, change nothing. -/
def read (c : Course) (number : Int) (line : List Char) : Course :=
  match (Block.ofLine number line).1 with
  | none => c
  | some b =>
    match b.kind? with
    | none => c
    | some kind => c.advance kind b

def readAll (c : Course) (number : Int) : List (List Char) → Course
  | [] => c
  | line :: rest => (c.read number line).readAll (number + 1) rest

/-- The whole of a text. -/
def ofText (text : List Char) : Course := start.readAll 1 (Text.splitLines text)

/-- What holds of a reading that has come to the line `number`. -/
structure Sound (c : Course) (number : Int) : Prop where
  first : 1 ≤ number
  ordered : c.moves.Pairwise fun move next => move.line < next.line
  numbered : ∀ move ∈ c.moves, 1 ≤ move.line ∧ move.line < number
  modal : c.modal = .ofMoves c.moves
  box : c.box? = Envelope.bounds? c.moves

theorem start_sound : start.Sound 1 where
  first := le_refl 1
  ordered := .nil
  numbered := List.forall_mem_nil _
  modal := rfl
  box := rfl

variable {c : Course} {number : Int}

theorem Sound.wait (sound : c.Sound number) : c.Sound (number + 1) where
  first := Int.le_add_one sound.first
  ordered := sound.ordered
  numbered move member := by
    have bounds := sound.numbered move member
    omega
  modal := sound.modal
  box := sound.box

theorem Sound.advance (sound : c.Sound number) (kind : MoveKind) {b : Block}
    (here : b.line = number) : (c.advance kind b).Sound (number + 1) where
  first := Int.le_add_one sound.first
  ordered := by
    refine List.pairwise_append.mpr ⟨sound.ordered, List.pairwise_singleton _ _, ?_⟩
    intro move member next last
    rw [List.mem_singleton.mp last]
    exact here ▸ (sound.numbered move member).2
  numbered := by
    intro move member
    have first := sound.first
    rcases List.mem_append.mp member with before | last
    · have bounds := sound.numbered move before
      omega
    · rw [List.mem_singleton.mp last]
      change 1 ≤ b.line ∧ b.line < number + 1
      omega
  modal := by
    rw [Course.advance, Modal.ofMoves, List.getLast?_concat]
  box := by
    rw [Course.advance, Envelope.bounds?_concat, ← sound.box, Envelope.extend_eq_union?]

/-- One more line. -/
theorem Sound.read (sound : c.Sound number) (line : List Char) :
    (c.read number line).Sound (number + 1) := by
  unfold Course.read
  rcases Block.ofLine_filled number line with ⟨silent, _⟩ | ⟨count, b, words, filled⟩
  · rw [silent]
    exact sound.wait
  · rw [words]
    cases motion : b.kind? with
    | none =>
      simp only [motion]
      exact sound.wait
    | some kind =>
      simp only [motion]
      exact sound.advance kind filled.line

theorem Sound.readAll (sound : c.Sound number) (lines : List (List Char)) :
    (c.readAll number lines).Sound (number + lines.length) := by
  induction lines generalizing c number with
  | nil => simpa [Course.readAll] using sound
  | cons line lines ih =>
    have rest := ih (sound.read line)
    rw [Int.add_assoc, Int.add_comm 1] at rest
    exact rest

/-- Carried along together, the moves and the values are those of reading the blocks. -/
theorem readAll_eq (c : Course) (number : Int) (lines : List (List Char)) :
    let blocks := (Program.readLines number lines).filterMap (·.1)
    (c.readAll number lines).moves = c.moves ++ c.modal.moves blocks ∧
      (c.readAll number lines).modal = c.modal.after blocks := by
  induction lines generalizing c number with
  | nil => exact ⟨(List.append_nil _).symm, rfl⟩
  | cons line lines ih =>
    obtain ⟨moves, modal⟩ := ih (c.read number line) (number + 1)
    rw [Course.readAll, Program.readLines, List.filterMap_cons, moves, modal]
    unfold Course.read
    cases words : (Block.ofLine number line).1 with
    | none => exact ⟨rfl, rfl⟩
    | some b =>
      cases motion : b.kind? with
      | none => simp [Modal.moves, Modal.after, Modal.afterBlock, motion]
      | some kind => simp [Modal.moves, Modal.after, Modal.afterBlock, motion, Course.advance]

theorem ofText_sound (text : List Char) : (ofText text).Sound (1 + (Program.parse text).totalLines) :=
  start_sound.readAll _

theorem ofText_moves (text : List Char) : (ofText text).moves = (Program.parse text).moves :=
  (readAll_eq start 1 (Text.splitLines text)).1

theorem ofText_modal (text : List Char) : (ofText text).modal = (Program.parse text).final :=
  (readAll_eq start 1 (Text.splitLines text)).2

/-- The envelope is the box that was carried along, the default one if none was begun. -/
theorem ofText_envelope (text : List Char) :
    (ofText text).box?.getD .default = (Program.parse text).envelope := by
  rw [(ofText_sound text).box, ofText_moves]
  rfl

end Course

/-- What is the case for every program that was read from a text. -/
structure Program.WellFormed (p : Program) : Prop where
  ordered : p.moves.Pairwise fun move next => move.line < next.line
  numbered : ∀ move ∈ p.moves, 1 ≤ move.line ∧ move.line ≤ p.totalLines
  finite : ∀ move ∈ p.moves, FiniteMove move
  final : p.final = .ofMoves p.moves
  envelope : p.envelope = .ofMoves p.moves
  default : p.moves = [] → p.envelope = .default
  contains : ∀ move ∈ p.moves, p.envelope.contains move.x move.y = true
  least : p.moves ≠ [] → ∀ box : Envelope Float,
    (∀ move ∈ p.moves, box.contains move.x move.y = true) → p.envelope.Within box
  unordered : ∀ moves, moves.Perm p.moves → (Envelope.ofMoves moves).same p.envelope = true
  warnings : ∀ d ∈ p.diagnostics, d.severity = .warning ∧ 1 ≤ d.line ∧ d.line ≤ p.totalLines
  sorted : p.diagnostics.Pairwise fun d next =>
    d.line < next.line ∨ d.line = next.line ∧ d.start ≤ next.start

/-- Whatever the text, its program is well formed, and its envelope is the box carried along beside
the moves while the lines are read one by one. -/
theorem parse_wellFormed (text : List Char) :
    (Program.parse text).WellFormed ∧
      (Program.parse text).envelope = (Course.ofText text).box?.getD .default := by
  have sound := Course.ofText_sound text
  have moves := Course.ofText_moves text
  have finite : ∀ move ∈ (Program.parse text).moves, FiniteMove move :=
    fun move => finite_of_mem_moves
  have targets : ∀ move ∈ (Program.parse text).moves, Envelope.FiniteTarget move :=
    fun move member => (finite move member).target
  have box : (Program.parse text).envelope = .ofMoves (Program.parse text).moves := by
    rw [← Course.ofText_envelope, sound.box, moves]
    rfl
  obtain ⟨warnings, sorted⟩ := parse_warnings text
  refine ⟨?_, (Course.ofText_envelope text).symm⟩
  constructor
  case ordered => exact moves ▸ sound.ordered
  case numbered =>
    intro move member
    have bounds := sound.numbered move (moves ▸ member)
    omega
  case finite => exact finite
  case final => rw [← Course.ofText_modal, sound.modal, moves]
  case envelope => exact box
  case default =>
    intro empty
    rw [box, empty]
    rfl
  case contains =>
    rw [box]
    exact Envelope.ofMoves_contains targets
  case least =>
    intro nonempty other inside
    rw [box]
    exact Envelope.ofMoves_least nonempty inside
  case unordered =>
    intro others perm
    rw [box]
    exact Envelope.ofMoves_perm targets perm
  case warnings => exact warnings
  case sorted => exact sorted

end Toolpath.Gcode
