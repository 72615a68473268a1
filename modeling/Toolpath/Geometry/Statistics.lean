import Toolpath.Geometry.Planar
import Toolpath.Motion

/-! Counts and travelled lengths, apart for the two kinds of movement. -/
namespace Toolpath

structure PathStatistics (α : Type) where
  rapidCount : Nat
  linearCount : Nat
  rapidLength : α
  linearLength : α

namespace PathStatistics
variable {α : Type} [Scalar α]

def empty : PathStatistics α := ⟨0, 0, Scalar.zero, Scalar.zero⟩

def totalCount (stats : PathStatistics α) : Nat := stats.rapidCount + stats.linearCount

def totalLength (stats : PathStatistics α) : α := stats.rapidLength + stats.linearLength

def add (stats : PathStatistics α) : MoveKind → α → PathStatistics α
  | .rapid, length =>
    { stats with rapidCount := stats.rapidCount + 1, rapidLength := stats.rapidLength + length }
  | .linear, length =>
    { stats with linearCount := stats.linearCount + 1, linearLength := stats.linearLength + length }

/-- Continues a walk that has come to the point `(x, y)`. -/
def walk [Metric α] (stats : PathStatistics α) (x y : α) : List (Move α) → PathStatistics α
  | [] => stats
  | move :: rest =>
    (stats.add move.kind (Planar.distance x y move.x move.y)).walk move.x move.y rest

/-- The walk starts at the origin. -/
def ofMoves [Metric α] (moves : List (Move α)) : PathStatistics α :=
  empty.walk Scalar.zero Scalar.zero moves

end PathStatistics

end Toolpath
