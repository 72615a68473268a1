import Mathlib
import Toolpath.Proofs.Gcode.Coordinates
import Toolpath.Proofs.Gcode.Emission
import Toolpath.Proofs.Gcode.Outcome
import Toolpath.Session.Basic

/-! A program that was written settles. What a written coordinate reads as is as near to the written
decimal as the coordinate was, so it is written in the same way again; feeds are written exactly and
wherever they were before. Processing and emitting therefore change nothing after the first time. -/
namespace Toolpath

namespace Gcode
open Binary64 Decimal

/-! Numbers written twice. -/

/-- A written coordinate reads as the double nearest to its decimal. -/
theorem rounded_rounds (places : Nat) {x : Float} (finite : isFinite x = true) {n : ℤ}
    (text : coordinate places x = (FixedDecimal.ofInt places n).text) :
    Rounds (n / 10 ^ places) (rounded places x) := by
  have reads : rounded places x = nearest (decide (n < 0)) (n.natAbs * oneUnits) (10 ^ places) := by
    rw [rounded, text, FixedDecimal.ofInt_text, Numeral.float?_text, Option.getD_some, numeral_value]
  obtain ⟨_, _, value, finiteRead⟩ := exists_coordinate places finite
  rw [value, reads] at finiteRead
  have rounds := nearest_rounds (decide (n < 0)) (Nat.pow_pos (by decide : 0 < 10))
    (codeOfRatio_lt_of_isFinite finiteRead)
  rw [signedUnits_mul, signedUnits_natAbs fun _ => rfl] at rounds
  push_cast at rounds
  rwa [mul_div_mul_right _ _ oneUnits_cast_pos.ne', ← reads] at rounds

/-- A coordinate and what it reads as are written alike. -/
theorem coordinate_rounded (places : Nat) {x : Float} (finite : isFinite x = true) :
    coordinate places (rounded places x) = coordinate places x := by
  have tens : (0 : ℚ) < 10 ^ places := by positivity
  obtain ⟨n, nearest, text⟩ := coordinate_fixed places finite
  have rounds := rounded_rounds places finite text
  obtain ⟨m, nearestRead, textRead⟩ := coordinate_fixed places rounds.finite
  have scaled (y : Float) : |n - value y * 10 ^ places| = |value y - n / 10 ^ places| * 10 ^ places := by
    rw [← abs_of_pos tens, ← abs_mul, abs_of_pos tens, sub_mul, div_mul_cancel₀ _ tens.ne', abs_sub_comm]
  have again : NearestEven (value (rounded places x) * 10 ^ places) n := by
    refine nearest.closer ?_
    rw [scaled, scaled]
    exact mul_le_mul_of_nonneg_right (rounds.closest x finite) tens.le
  rw [text, textRead, nearestRead.unique again]

/-- Equal doubles are written alike, the two zeros included. -/
theorem constant_congr {x y : Float} (finiteX : isFinite x = true) (finiteY : isFinite y = true)
    (same : (x == y) = true) : constant x = constant y := by
  obtain ⟨m, a, belowA, rfl⟩ := exists_ofCode finiteX
  obtain ⟨n, b, belowB, rfl⟩ := exists_ofCode finiteY
  rw [beq_ofCode m n belowA belowB] at same
  rw [constant_ofCode m belowA, constant_ofCode n belowB]
  obtain ⟨rfl, alike⟩ : a = b ∧ (m = n ∨ a = 0) := by
    unfold signedCode at same
    cases m <;> cases n <;> simp at same ⊢ <;> omega
  rcases alike with rfl | rfl
  · rfl
  · have unsigned (negative : Bool) : constantNumeral negative 0 = ⟨false, 0, 0⟩ := by
      cases negative <;> rfl
    rw [unsigned, unsigned]

/-! Programs written twice. -/

/-- Running feeds that are equal as numbers give the same feed words. -/
theorem bne_congr {x y z w : Float} (finiteX : isFinite x = true) (finiteY : isFinite y = true)
    (finiteZ : isFinite z = true) (finiteW : isFinite w = true) (left : (x == y) = true)
    (right : (z == w) = true) : (x != z) = (y != w) := by
  rw [beq_iff_value finiteX finiteY] at left
  rw [beq_iff_value finiteZ finiteW] at right
  rw [bne, bne, Bool.not_eq_eq_eq_not, Bool.not_not, Bool.eq_iff_iff,
    beq_iff_value finiteX finiteZ, beq_iff_value finiteY finiteW, left, right]

/-- Moves are written as what they were read back from. -/
theorem moveLines_readBack (places : Nat) {moves read : List (Move Float)} {count : Nat}
    {feed feed' : Float} (writable : ∀ move ∈ moves, Writable move)
    (pairs : List.Forall₂ (ReadBack places) (moves.zipIdx count) read) (finite : isFinite feed = true)
    (finite' : isFinite feed' = true) (lockstep : (feed' == feed) = true) :
    moveLines places feed' read = moveLines places feed moves := by
  induction moves generalizing count feed feed' read with
  | nil =>
    cases pairs
    rfl
  | cons move rest ih =>
    rw [List.zipIdx_cons] at pairs
    cases pairs with
    | @cons _ again _ others first following =>
    have good := writable move List.mem_cons_self
    have finiteFeed := isFinite_of_beq good.feed first.feed
    have x : again.x = rounded places move.x := by
      have reads := first.x.symm.trans (float?_coordinate places good.x)
      exact Option.some.inj reads
    have y : again.y = rounded places move.y := by
      have reads := first.y.symm.trans (float?_coordinate places good.y)
      exact Option.some.inj reads
    have words : (again.feed != feed') = (move.feed != feed) :=
      bne_congr finiteFeed good.feed finite' finite first.feed lockstep
    have line : moveLine places feed' again = moveLine places feed move := by
      rw [moveLine, moveLine, words, first.kind, constant_congr finiteFeed good.feed first.feed,
        pointWords, pointWords, x, y, coordinate_rounded places good.x, coordinate_rounded places good.y]
    rw [moveLines, moveLines, line, words]
    refine congrArg _ (ih (fun next member => writable next (List.mem_cons_of_mem _ member)) following
      ?_ ?_ ?_)
    · split
      · exact good.feed
      · exact finite
    · split
      · exact finiteFeed
      · exact finite'
    · split
      · exact first.feed
      · exact lockstep

theorem writable_of_mem_moves {text : List Char} :
    ∀ move ∈ (Program.parse text).moves, Writable move := by
  intro move member
  obtain ⟨target, feed, sign⟩ := finite_of_mem_moves member
  exact ⟨target.1, target.2, feed, sign⟩

/-- An emitted text is emitted again for the program that it reads as. -/
theorem emit_parse {precision : Int} {moves : List (Move Float)} {text : List Char}
    (nonnegative : 0 ≤ precision) (writable : ∀ move ∈ moves, Writable move)
    (emitted : emit precision moves = .ok text) : emit precision (Program.parse text).moves = .ok text := by
  have usable : moves = [] ∨ precision ≤ maxPlaces := by
    by_contra unusable
    obtain ⟨nonempty, beyond⟩ := not_or.mp unusable
    rw [emit_unusable nonempty (by omega)] at emitted
    cases emitted
  obtain ⟨_, same, _, pairs⟩ := parse_written nonnegative writable usable
  rw [emitted] at same
  obtain rfl := Except.ok.inj same
  have zero : isFinite 0 = true := by decide
  have lines := moveLines_readBack precision.toNat writable pairs zero zero (by decide)
  generalize (Program.parse text).moves = read at pairs lines
  cases moves with
  | nil =>
    cases pairs
    exact emitted
  | cons move rest =>
    rw [List.zipIdx_cons] at pairs
    cases pairs
    rcases usable with empty | bounded
    · cases empty
    · have usable : places? precision = .ok precision.toNat := if_pos ⟨nonnegative, bounded⟩
      rw [emit, usable] at emitted ⊢
      rw [← emitted]
      exact congrArg (fun lines => Except.ok (Text.joinLines lines)) lines

end Gcode

namespace Session
open Gcode
variable {σ : Type} [TickScheduler σ]

/-- Emits the program and processes what was emitted. -/
def cycle (s : Session σ) : Except Fault (Session σ) := s.emit.map fun text => (s.process text).state

/-- Goes through so many cycles, one after the other. -/
def cycles (s : Session σ) : Nat → Except Fault (Session σ)
  | 0 => .ok s
  | n + 1 => (s.cycles n).bind cycle

/-- A session that holds a text which it emits, and the commands that the text reads as. -/
structure Settled (written : List Char) (s : Session σ) : Prop where
  text : s.text = written
  program : s.program = Program.parse written
  loaded : s.engine.moves = s.program.moves
  emitted : s.emit = .ok written

theorem process_emit (s : Session σ) (text : List Char) :
    (s.process text).state.emit = Gcode.emit s.precision (Program.parse text).moves := rfl

/-- Processing what was emitted settles a session. -/
theorem process_settled {s : Session σ} {text : List Char} (nonnegative : 0 ≤ s.precision)
    (writable : ∀ move ∈ s.program.moves, Writable move) (emitted : s.emit = .ok text) :
    (s.process text).state.Settled text where
  text := rfl
  program := rfl
  loaded := rfl
  emitted := emit_parse nonnegative writable emitted

theorem Settled.cycle {s : Session σ} {text : List Char} (settled : s.Settled text)
    (nonnegative : 0 ≤ s.precision) :
    ∃ next : Session σ, s.cycle = .ok next ∧ next.Settled text ∧ next.precision = s.precision := by
  refine ⟨(s.process text).state, ?_, ?_, rfl⟩
  · rw [Session.cycle, settled.emitted]
    rfl
  · refine process_settled nonnegative ?_ settled.emitted
    rw [settled.program]
    exact writable_of_mem_moves

/-- Once a text was processed the session emits a text that every further cycle of processing and
emitting gives again, with the commands of the first of them, as long as the decimals are no more than
can be read. With more than can be asked for no command is emitted. -/
theorem cycles_settle (s : Session σ) (text : List Char) (nonnegative : 0 ≤ s.precision) :
    let first := (s.process text).state
    (first.program.moves = [] ∨ s.precision ≤ readablePlaces → ∃ emitted, first.emit = .ok emitted ∧
      ∀ n, ∃ last, first.cycles (n + 1) = .ok last ∧ last.Settled emitted) ∧
    (first.program.moves ≠ [] → maxPlaces < s.precision →
      first.emit = .error .unusablePrecision) := by
  intro first
  refine ⟨fun readable => ?_, emit_unusable⟩
  obtain ⟨emitted, same, _, _⟩ := parse_written nonnegative (@writable_of_mem_moves text)
    (readable.imp_right places_of_readable)
  have run (n : Nat) : ∃ last, first.cycles (n + 1) = .ok last ∧ last.Settled emitted ∧
      last.precision = s.precision := by
    induction n with
    | zero =>
      refine ⟨(first.process emitted).state, ?_, process_settled nonnegative writable_of_mem_moves same,
        rfl⟩
      change first.cycle = _
      rw [cycle, process_emit, same]
      rfl
    | succ n ih =>
      obtain ⟨last, reached, settled, kept⟩ := ih
      obtain ⟨next, cycled, settled, precision⟩ := settled.cycle (kept ▸ nonnegative)
      refine ⟨next, ?_, settled, precision.trans kept⟩
      rw [cycles, reached]
      exact cycled
  exact ⟨emitted, same, fun n => (run n).imp fun _ ⟨reached, settled, _⟩ => ⟨reached, settled⟩⟩

/-- The second coordinate rounds to zero and loses its sign on the way. -/
theorem cycles_settle_rounded :
    let s : Session (ManualScheduler Nat) := .new ⟨50, 25, 3, 800, 600, 60, 0.9,
      Drawing.CompilerConfig.default.compiler, 3⟩ .empty
    let first := (s.process "G1 X0.12345 Y-0.0001 F100".toList).state
    0 ≤ s.precision ∧ s.precision ≤ readablePlaces ∧ ∃ emitted, first.emit = .ok emitted ∧
      emitted = "G1 X0.123 Y0.000 F100".toList ∧
        ∀ n, ∃ last, first.cycles (n + 1) = .ok last ∧ last.Settled emitted := by
  intro s first
  have nonnegative : 0 ≤ s.precision := by decide
  have readable : s.precision ≤ readablePlaces := by decide
  obtain ⟨emitted, same, run⟩ := (cycles_settle s _ nonnegative).1 (.inr readable)
  have spelt : first.emit.toOption = some "G1 X0.123 Y0.000 F100".toList := by decide +kernel
  rw [same] at spelt
  exact ⟨nonnegative, readable, emitted, same, Option.some.inj spelt, run⟩

/-- With one decimal more than can be asked for a command is processed and not emitted. -/
theorem too_precise_to_emit :
    let s : Session (ManualScheduler Nat) := .new ⟨50, 25, 3, 800, 600, 60, 0.9,
      Drawing.CompilerConfig.default.compiler, 2147483648⟩ .empty
    let first := (s.process "G0 X1".toList).state
    0 ≤ s.precision ∧ first.program.moves.length = 1 ∧ first.emit.isOk = false := by
  decide +kernel

end Session

end Toolpath
