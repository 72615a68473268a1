import Mathlib
import Toolpath.Geometry.Statistics
import Toolpath.Proofs.Playback.Run

/-! The path that a run has covered, as legs from one waypoint to the next. The legs of a history
are those of the moves completed so far, so whatever is counted or measured along the history comes
to the same as along the moves. Nothing is asked of the arithmetic: distances may be any function of
two points, and lengths may be added up in any way. -/
namespace Toolpath

namespace Waypoint
variable {α : Type}

/-- Each waypoint with the one after it. -/
def legs (points : List (Waypoint α)) : List (Waypoint α × Waypoint α) := points.zip points.tail

@[simp] theorem legs_singleton (p : Waypoint α) : legs [p] = [] := rfl

@[simp] theorem legs_cons (p q : Waypoint α) (rest : List (Waypoint α)) :
    legs (p :: q :: rest) = (p, q) :: legs (q :: rest) := rfl

/-- The first legs are the legs of the first points. -/
theorem legs_take (p : Waypoint α) (rest : List (Waypoint α)) (k : Nat) :
    legs (p :: rest.take k) = (legs (p :: rest)).take k := by
  induction rest generalizing p k with
  | nil => simp
  | cons q rest ih =>
    cases k with
    | zero => rfl
    | succ k => rw [List.take_succ_cons, legs_cons, legs_cons, List.take_succ_cons, ih]

end Waypoint

/-- The legs of moves, the first of which begins at the origin. -/
def Move.legs {α : Type} [Scalar α] (moves : List (Move α)) : List (Waypoint α × Waypoint α) :=
  Waypoint.legs (.start :: moves.map .ofMove)

theorem Move.legs_take {α : Type} [Scalar α] (moves : List (Move α)) (k : Nat) :
    Move.legs (moves.take k) = (Move.legs moves).take k := by
  rw [Move.legs, List.map_take, Waypoint.legs_take, Move.legs]

/-- The legs covered are those of the moves that the index counts. -/
theorem PlaybackState.Consistent.legs {α : Type} [Scalar α] {s : PlaybackState α}
    {moves : List (Move α)} (same : s.Consistent moves) :
    Waypoint.legs s.history.toList = Move.legs (moves.take s.index.toNat) := by
  rw [same.history, Move.legs]

/-- A run that is complete has no move left. -/
theorem PlaybackState.Consistent.take_complete {α : Type} [Scalar α] {s : PlaybackState α}
    {moves : List (Move α)} (same : s.Consistent moves) (complete : s.status = .complete) :
    moves.take s.index.toNat = moves := by
  have index := (same.complete.mp complete).1
  exact List.take_of_length_le (by omega)

/-- A way to measure the distance between two points, given by their coordinates, and a way to add
lengths up. -/
structure Gauge (α : Type) where
  distance : α → α → α → α → α
  plus : α → α → α

/-- The distance in the plane and the sum. -/
def Gauge.planar {α : Type} [Scalar α] [Metric α] : Gauge α := ⟨Planar.distance, (· + ·)⟩

namespace PathStatistics
variable {α : Type} {gauge : Gauge α}

def addBy (gauge : Gauge α) (stats : PathStatistics α) : MoveKind → α → PathStatistics α
  | .rapid, length =>
    { stats with
      rapidCount := stats.rapidCount + 1
      rapidLength := gauge.plus stats.rapidLength length }
  | .linear, length =>
    { stats with
      linearCount := stats.linearCount + 1
      linearLength := gauge.plus stats.linearLength length }

/-- Continues a walk along moves, with lengths of its own. -/
def walkBy (gauge : Gauge α) (stats : PathStatistics α) (x y : α) : List (Move α) → PathStatistics α
  | [] => stats
  | move :: rest =>
    (stats.addBy gauge move.kind (gauge.distance x y move.x move.y)).walkBy gauge move.x move.y rest

def ofMovesBy [Scalar α] (gauge : Gauge α) (moves : List (Move α)) : PathStatistics α :=
  empty.walkBy gauge Scalar.zero Scalar.zero moves

/-- Counts a leg for the kind of movement that ended at its later point. -/
def addLeg (gauge : Gauge α) (stats : PathStatistics α) (leg : Waypoint α × Waypoint α) :
    PathStatistics α :=
  match leg.2.kind with
  | none => stats
  | some kind => stats.addBy gauge kind (gauge.distance leg.1.x leg.1.y leg.2.x leg.2.y)

/-- Walks a history from its first waypoint to its last. -/
def ofHistory [Scalar α] (gauge : Gauge α) (history : History (Waypoint α)) : PathStatistics α :=
  (Waypoint.legs history.toList).foldl (addLeg gauge) empty

theorem totalCount_addBy (stats : PathStatistics α) (kind : MoveKind) (length : α) :
    (stats.addBy gauge kind length).totalCount = stats.totalCount + 1 := by
  cases kind <;> simp only [addBy, totalCount] <;> omega

/-- A walk counts every move. -/
theorem totalCount_walkBy (stats : PathStatistics α) (x y : α) (moves : List (Move α)) :
    (stats.walkBy gauge x y moves).totalCount = stats.totalCount + moves.length := by
  induction moves generalizing stats x y with
  | nil => rfl
  | cons move rest ih => rw [walkBy, ih, totalCount_addBy, List.length_cons]; omega

theorem totalCount_ofMovesBy [Scalar α] (moves : List (Move α)) :
    (ofMovesBy gauge moves).totalCount = moves.length :=
  (totalCount_walkBy _ _ _ moves).trans (Nat.zero_add _)

/-- The running position of a walk is where its leg begins. -/
theorem walkBy_eq_foldl (stats : PathStatistics α) (p : Waypoint α) (moves : List (Move α)) :
    stats.walkBy gauge p.x p.y moves =
      (Waypoint.legs (p :: moves.map .ofMove)).foldl (addLeg gauge) stats := by
  induction moves generalizing stats p with
  | nil => rfl
  | cons move rest ih => exact ih _ (.ofMove move)

section
variable [Scalar α]

theorem ofMovesBy_eq (moves : List (Move α)) :
    ofMovesBy gauge moves = (Move.legs moves).foldl (addLeg gauge) empty :=
  walkBy_eq_foldl empty .start moves

/-- Along the history of a consistent state as along the moves that it has completed. -/
theorem ofHistory_eq {s : PlaybackState α} {moves : List (Move α)} (same : s.Consistent moves)
    (gauge : Gauge α) :
    ofHistory gauge s.history = ofMovesBy gauge (moves.take s.index.toNat) := by
  rw [ofHistory, same.legs, ofMovesBy_eq]

variable [Metric α]

theorem walk_eq (stats : PathStatistics α) (x y : α) (moves : List (Move α)) :
    stats.walk x y moves = stats.walkBy .planar x y moves := by
  induction moves generalizing stats x y with
  | nil => rfl
  | cons move rest ih =>
    have added (kind : MoveKind) (length : α) :
        stats.add kind length = stats.addBy .planar kind length := by
      cases kind <;> rfl
    rw [walk, walkBy, ih, added]
    rfl

theorem ofMoves_eq (moves : List (Move α)) : ofMoves moves = ofMovesBy .planar moves :=
  walk_eq empty _ _ moves

/-- Whatever has been asked of an engine, a walk along its history gives the counts and lengths of
the moves that it has completed, with the distances and sums of the statistics and with any others;
the counts add up to the number of these moves. At the end these are all moves. -/
theorem covered_as_moves (moves : List (Move α)) (speed : Int) (divisor rapidFactor : α)
    (operations : List (Engine.Operation α)) :
    let e := (Engine.new moves speed divisor rapidFactor).performAll operations
    let completed := e.moves.take e.state.index.toNat
    (∀ gauge, ofHistory gauge e.state.history = ofMovesBy gauge completed) ∧
      ofHistory .planar e.state.history = ofMoves completed ∧
      (∀ gauge, ((ofHistory gauge e.state.history).totalCount : Int) = e.state.index) ∧
      (e.state.status = .complete →
        (∀ gauge, ofHistory gauge e.state.history = ofMovesBy gauge e.moves) ∧
          ofHistory .planar e.state.history = ofMoves e.moves ∧
          (ofMoves e.moves).totalCount = e.moves.length) := by
  intro e completed
  have same : e.state.Consistent e.moves := Engine.performAll_consistent Engine.new_consistent
  have walked := ofHistory_eq same
  have bounds := And.intro same.nonnegative same.bounded
  refine ⟨walked, (walked .planar).trans (ofMoves_eq _).symm, fun gauge => ?_, fun complete => ?_⟩
  · rw [walked, totalCount_ofMovesBy, List.length_take]
    omega
  · rw [same.take_complete complete] at walked
    refine ⟨walked, (walked .planar).trans (ofMoves_eq _).symm, ?_⟩
    rw [ofMoves_eq, totalCount_ofMovesBy]

end

end PathStatistics

end Toolpath
