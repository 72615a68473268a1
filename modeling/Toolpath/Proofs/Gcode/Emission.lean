import Mathlib
import Toolpath.Proofs.Gcode.Reading

/-! Moves written out and read again. The writer leaves out a feed that equals the one before, and
the reader keeps the last one it was given; the two running feeds stay equal, so every move comes
back with its own. -/
namespace Toolpath.Gcode
open Binary64 Decimal

/-! The lines that ask for a motion. -/

/-- A word with a natural number. -/
def naturalWord (letter : Char) (n : Nat) (capital : letter.isUpper = true)
    (finite : isFinite (⟨false, 0, n⟩ : Numeral).value = true) : WrittenWord :=
  ⟨letter, capital, ⟨false, 0, n⟩, finite⟩

theorem finite_zeroNumeral : isFinite (⟨false, 0, 0⟩ : Numeral).value = true := by decide

theorem finite_oneNumeral : isFinite (⟨false, 0, 1⟩ : Numeral).value = true := by decide +kernel

/-- The word that a move of this kind begins with. -/
def moveWord : MoveKind → WrittenWord
  | .rapid => naturalWord 'G' 0 rfl finite_zeroNumeral
  | .linear => naturalWord 'G' 1 rfl finite_oneNumeral

theorem moveWord_text (kind : MoveKind) : (moveWord kind).text = kind.word.toList := by
  cases kind <;> rfl

theorem kind?_of_moveWord {kind : MoveKind} {b : Block}
    (codes : b.gCodes = [(moveWord kind).number.value]) :
    b.kind? = some kind ∧ b.bothDiagnostic? = [] := by
  have rapid : ((moveWord .rapid).number.value == 0) = true := by decide
  have rapidOnly : ((moveWord .rapid).number.value == 1) = false := by decide
  have linear : ((moveWord .linear).number.value == 1) = true := by decide +kernel
  have linearOnly : ((moveWord .linear).number.value == 0) = false := by decide +kernel
  cases kind <;>
    simp [Block.bothDiagnostic?, Block.kind?, codes, rapid, rapidOnly, linear, linearOnly]

/-- A line that begins with the word of a motion asks for it, with the values of the words that
follow. -/
theorem hasEffect_motion {kind : MoveKind} {ws : List WrittenWord} {tail : List Char}
    {x y feed : Option Float} (allowed : Tail tail)
    (admits : ∀ number count, (Block.empty number count).AdmitsAll (moveWord kind :: ws))
    (given : ∀ number count, (Block.empty number count).giveAll (moveWord kind :: ws) =
      ⟨number, [(moveWord kind).number.value], x, y, feed, count⟩) :
    HasEffect (wordsText (moveWord kind) ws ++ tail) (.motion kind x y feed) := by
  apply hasEffect_words allowed admits
  intro number count
  rw [given]
  obtain ⟨moved, silent⟩ := @kind?_of_moveWord kind
    ⟨number, [(moveWord kind).number.value], x, y, feed, count⟩ rfl
  exact ⟨silent, _, rfl, rfl, moved, rfl, rfl, rfl⟩

/-- The words that a motion to a point is written with. -/
theorem exists_pointWords (places : Nat) (kind : MoveKind) {x y : Float}
    (finiteX : isFinite x = true) (finiteY : isFinite y = true) :
    ∃ (nx ny : Numeral) (goodX : isFinite nx.value = true) (goodY : isFinite ny.value = true),
      nx.value = rounded places x ∧ ny.value = rounded places y ∧
        kind.word.toList ++ ' ' :: pointWords places x y =
          wordsText (moveWord kind) [⟨'X', rfl, nx, goodX⟩, ⟨'Y', rfl, ny, goodY⟩] := by
  obtain ⟨nx, textX, valueX, goodX⟩ := exists_coordinate places finiteX
  obtain ⟨ny, textY, valueY, goodY⟩ := exists_coordinate places finiteY
  refine ⟨nx, ny, goodX, goodY, valueX, valueY, ?_⟩
  rw [wordsText, moveWord_text]
  simp [WrittenWord.text, pointWords, textX, textY]

theorem wordsText_concat (w : WrittenWord) (ws : List WrittenWord) (v : WrittenWord) :
    wordsText w (ws ++ [v]) = wordsText w ws ++ ' ' :: v.text := by
  simp [wordsText]

/-- The same with a feed behind them. -/
theorem exists_pointFeedWords (places : Nat) (kind : MoveKind) {x y feed : Float}
    (finiteX : isFinite x = true) (finiteY : isFinite y = true) (finiteFeed : isFinite feed = true) :
    ∃ (nx ny nf : Numeral) (goodX : isFinite nx.value = true) (goodY : isFinite ny.value = true)
      (goodF : isFinite nf.value = true),
      nx.value = rounded places x ∧ ny.value = rounded places y ∧ nf.value = reread feed ∧
        kind.word.toList ++ ' ' :: pointWords places x y ++ (" F".toList ++ constant feed) =
          wordsText (moveWord kind)
            [⟨'X', rfl, nx, goodX⟩, ⟨'Y', rfl, ny, goodY⟩, ⟨'F', rfl, nf, goodF⟩] := by
  obtain ⟨nx, ny, goodX, goodY, valueX, valueY, point⟩ :=
    exists_pointWords places kind finiteX finiteY
  obtain ⟨nf, textF, valueF, goodF⟩ := exists_constant finiteFeed
  refine ⟨nx, ny, nf, goodX, goodY, goodF, valueX, valueY, valueF, ?_⟩
  rw [point, textF]
  exact (wordsText_concat _ [⟨'X', rfl, nx, goodX⟩, ⟨'Y', rfl, ny, goodY⟩]
    ⟨'F', rfl, nf, goodF⟩).symm

/-- The words of a motion to a point without a feed, and with one. -/
theorem hasEffect_point (places : Nat) (kind : MoveKind) {x y : Float} (finiteX : isFinite x = true)
    (finiteY : isFinite y = true) : HasEffect (kind.word.toList ++ ' ' :: pointWords places x y)
      (.motion kind (some (rounded places x)) (some (rounded places y)) none) := by
  obtain ⟨nx, ny, goodX, goodY, valueX, valueY, line⟩ :=
    exists_pointWords places kind finiteX finiteY
  rw [line, ← List.append_nil (wordsText _ _), ← valueX, ← valueY]
  apply hasEffect_motion .none
  · intro number count
    cases kind <;> exact ⟨trivial, rfl, rfl, trivial⟩
  · intro number count
    cases kind <;> rfl

theorem hasEffect_pointFeed (places : Nat) (kind : MoveKind) {x y feed : Float}
    (finiteX : isFinite x = true) (finiteY : isFinite y = true) (finiteFeed : isFinite feed = true)
    (nonnegative : 0 ≤ feed) :
    HasEffect (kind.word.toList ++ ' ' :: pointWords places x y ++ (" F".toList ++ constant feed))
      (.motion kind (some (rounded places x)) (some (rounded places y)) (some (reread feed))) := by
  obtain ⟨nx, ny, nf, goodX, goodY, goodF, valueX, valueY, valueF, line⟩ :=
    exists_pointFeedWords places kind finiteX finiteY finiteFeed
  have positive : ¬ nf.value < 0 := by
    rw [valueF]
    exact reread_nonnegative finiteFeed nonnegative
  rw [line, ← List.append_nil (wordsText _ _), ← valueX, ← valueY, ← valueF]
  apply hasEffect_motion .none
  · intro number count
    cases kind <;> exact ⟨trivial, rfl, rfl, ⟨rfl, positive⟩, trivial⟩
  · intro number count
    cases kind <;> rfl

/-! Moves written out. -/

/-- A move that can be written: its numbers are finite, and its feed is not negative. -/
structure Writable (move : Move Float) : Prop where
  x : isFinite move.x = true
  y : isFinite move.y = true
  feed : isFinite move.feed = true
  nonnegative : 0 ≤ move.feed

/-- The effects of the lines that `moveLines` writes. -/
def moveEffects (places : Nat) (feed : Float) : List (Move Float) → List Effect
  | [] => []
  | move :: rest =>
    .motion move.kind (some (rounded places move.x)) (some (rounded places move.y))
        (if move.feed != feed then some (reread move.feed) else none) ::
      moveEffects places (if move.feed != feed then move.feed else feed) rest

theorem moveLine_effect (places : Nat) (feed : Float) {move : Move Float}
    (writable : Writable move) :
    HasEffect (moveLine places feed move) (.motion move.kind (some (rounded places move.x))
      (some (rounded places move.y))
      (if move.feed != feed then some (reread move.feed) else none)) := by
  unfold moveLine
  split
  · exact hasEffect_pointFeed places move.kind writable.x writable.y writable.feed
      writable.nonnegative
  · rw [List.append_nil]
    exact hasEffect_point places move.kind writable.x writable.y

theorem moveLines_effects (places : Nat) (feed : Float) {moves : List (Move Float)}
    (writable : ∀ move ∈ moves, Writable move) :
    List.Forall₂ HasEffect (moveLines places feed moves) (moveEffects places feed moves) := by
  induction moves generalizing feed with
  | nil => exact .nil
  | cons move rest ih =>
    exact .cons (moveLine_effect places feed (writable move List.mem_cons_self))
      (ih _ fun next member => writable next (List.mem_cons_of_mem _ member))

theorem moveLine_unbroken (places : Nat) (feed : Float) {move : Move Float}
    (writable : Writable move) :
    '\n' ∉ moveLine places feed move := by
  have word : '\n' ∉ move.kind.word.toList := by cases move.kind <;> decide
  have points := pointWords_unbroken places move.x move.y
  have constant := constant_unbroken writable.feed
  unfold moveLine
  split <;> simp [word, points, constant]

theorem moveLines_unbroken (places : Nat) (feed : Float) {moves : List (Move Float)}
    (writable : ∀ move ∈ moves, Writable move) :
    ∀ line ∈ moveLines places feed moves, '\n' ∉ line := by
  induction moves generalizing feed with
  | nil =>
    intro line member
    cases member
  | cons move rest ih =>
    intro line member
    rcases List.mem_cons.mp member with rfl | member
    · exact moveLine_unbroken places feed (writable move List.mem_cons_self)
    · exact ih _ (fun next member => writable next (List.mem_cons_of_mem _ member)) line member

/-- A move and what it comes back as: the same motion, to what its written coordinates read as, on
the line of its place. -/
structure ReadBack (places : Nat) (written : Move Float × Nat) (read : Move Float) : Prop where
  kind : read.kind = written.1.kind
  x : float? (coordinate places written.1.x) = some read.x
  y : float? (coordinate places written.1.y) = some read.y
  feed : (read.feed == written.1.feed) = true
  line : read.line = written.2 + 1

/-- The running feeds of writer and reader stay equal, whatever the writer leaves out. -/
theorem run_moveEffects (places : Nat) {feed : Float} {m : Modal} {moves : List (Move Float)}
    (count : Nat) (writable : ∀ move ∈ moves, Writable move) (finite : isFinite feed = true)
    (finiteRead : isFinite m.feed = true) (lockstep : (m.feed == feed) = true) :
    List.Forall₂ (ReadBack places) (moves.zipIdx count)
      (m.run (count + 1) (moveEffects places feed moves)) := by
  induction moves generalizing feed m count with
  | nil => exact .nil
  | cons move rest ih =>
    have good := writable move List.mem_cons_self
    have others : ∀ next ∈ rest, Writable next :=
      fun next member => writable next (List.mem_cons_of_mem _ member)
    rw [List.zipIdx_cons, moveEffects, Modal.run]
    have place : ((count + 1 : Nat) : Int) + 1 = count + 1 + 1 := by push_cast; rfl
    rw [← place]
    have x := float?_coordinate places good.x
    have y := float?_coordinate places good.y
    by_cases differs : (move.feed != feed) = true
    · simp only [differs, if_true]
      refine .cons ⟨rfl, x, y, reread_beq good.feed, rfl⟩ (ih (count + 1) others good.feed ?_ ?_)
      · exact isFinite_reread good.feed
      · exact reread_beq good.feed
    · simp only [differs, Bool.false_eq_true, if_false]
      have same : (move.feed == feed) = true := by simpa [bne] using differs
      refine .cons ⟨rfl, x, y, ?_, rfl⟩ (ih (count + 1) others finite finiteRead lockstep)
      exact beq_of_beq finiteRead good.feed finite lockstep same

/-- Written moves are read without a report: one move comes back for each, in order, of its kind and
with an equal feed, at the point that its written coordinates read as, on the line of its place. The
count of decimals has to be one that can be asked for, unless there is nothing to write. -/
theorem parse_written {precision : Int} {moves : List (Move Float)} (nonnegative : 0 ≤ precision)
    (writable : ∀ move ∈ moves, Writable move) (usable : moves = [] ∨ precision ≤ maxPlaces) :
    ∃ text, emit precision moves = .ok text ∧ (Program.parse text).diagnostics = [] ∧
      List.Forall₂ (ReadBack precision.toNat) moves.zipIdx (Program.parse text).moves := by
  cases moves with
  | nil =>
    obtain ⟨moved, silent⟩ : (Program.parse []).moves = Modal.start.run 1 [.silent] ∧
        (Program.parse []).diagnostics = [] :=
      parse_joinLines (List.cons_ne_nil [] []) (by simp) (.cons hasEffect_blank .nil)
    refine ⟨[], rfl, silent, ?_⟩
    rw [moved]
    exact .nil
  | cons move rest =>
    have bounded := usable.resolve_left (List.cons_ne_nil move rest)
    have places : places? precision = .ok precision.toNat := if_pos ⟨nonnegative, bounded⟩
    obtain ⟨moved, silent⟩ :=
      parse_joinLines (List.cons_ne_nil _ _) (moveLines_unbroken precision.toNat 0 writable)
      (moveLines_effects precision.toNat 0 writable)
    refine ⟨_, by rw [emit, places]; rfl, silent, ?_⟩
    rw [moved]
    exact run_moveEffects precision.toNat 0 writable (by decide) (by decide)
      (by decide)

theorem emit_unusable {precision : Int} {moves : List (Move Float)} (nonempty : moves ≠ [])
    (beyond : maxPlaces < precision) : emit precision moves = .error .unusablePrecision := by
  obtain ⟨move, rest, rfl⟩ := List.exists_cons_of_ne_nil nonempty
  have unusable : places? precision = .error .unusablePrecision := if_neg (by omega)
  rw [emit, unusable]
  rfl

/-- Moves that are written with as many decimals as can be read come back one for one. With more
decimals than can be asked for none is written, unless there is none to write. -/
theorem parse_emit {precision : Int} {moves : List (Move Float)} (nonnegative : 0 ≤ precision)
    (writable : ∀ move ∈ moves, Writable move) :
    (moves = [] ∨ precision ≤ readablePlaces → ∃ text, emit precision moves = .ok text ∧
      (Program.parse text).diagnostics = [] ∧
      List.Forall₂ (ReadBack precision.toNat) moves.zipIdx (Program.parse text).moves) ∧
    (moves ≠ [] → maxPlaces < precision → emit precision moves = .error .unusablePrecision) :=
  ⟨fun readable => parse_written nonnegative writable (readable.imp_right places_of_readable),
    emit_unusable⟩

theorem parse_emit_square :
    ∃ text, emit 3 [⟨.linear, 10, 0, 400, 7⟩, ⟨.rapid, 10, 10, 400, 9⟩] = .ok text ∧
    (Program.parse text).diagnostics = [] ∧ (Program.parse text).moves.length = 2 := by
  have writable : ∀ move ∈ [(⟨.linear, 10, 0, 400, 7⟩ : Move Float), ⟨.rapid, 10, 10, 400, 9⟩],
      Writable move := by
    simp only [List.forall_mem_cons]
    refine ⟨⟨?_, ?_, ?_, ?_⟩, ⟨?_, ?_, ?_, ?_⟩, by simp⟩ <;> decide
  obtain ⟨text, emitted, silent, read⟩ :=
    (@parse_emit 3 _ (by decide) writable).1 (.inr (by decide))
  exact ⟨text, emitted, silent, read.length_eq.symm⟩

/-- One decimal more than numbers can be written with. -/
theorem emit_too_precise : Writable ⟨.rapid, 0, 0, 0, 1⟩ ∧
    emit 2147483648 [⟨.rapid, 0, 0, 0, 1⟩] = .error .unusablePrecision :=
  ⟨by constructor <;> decide, rfl⟩

end Toolpath.Gcode
