import Toolpath.Motion

/-! The axis-aligned box around the targets of a list of moves. -/
namespace Toolpath

structure Envelope (α : Type) where
  minX : α
  maxX : α
  minY : α
  maxY : α

namespace Envelope
variable {α : Type} [Scalar α]

/-- The box shown when there is nothing to bound. -/
def default : Envelope α := ⟨Scalar.zero, Scalar.ofInt 100, Scalar.zero, Scalar.ofInt 100⟩

def around (x y : α) : Envelope α := ⟨x, x, y, y⟩

def cover (box : Envelope α) (x y : α) : Envelope α :=
  ⟨Scalar.min box.minX x, Scalar.max box.maxX x, Scalar.min box.minY y, Scalar.max box.maxY y⟩

/-- Grows a box that may not have begun yet. -/
def extend (box : Option (Envelope α)) (x y : α) : Envelope α :=
  match box with
  | none => around x y
  | some box => box.cover x y

def bounds? (moves : List (Move α)) : Option (Envelope α) :=
  moves.foldl (fun box move => some (extend box move.x move.y)) none

def ofMoves (moves : List (Move α)) : Envelope α := (bounds? moves).getD default

def width (box : Envelope α) : α := box.maxX - box.minX

def height (box : Envelope α) : α := box.maxY - box.minY

def center (box : Envelope α) : α × α :=
  ((box.minX + box.maxX) / Scalar.ofInt 2, (box.minY + box.maxY) / Scalar.ofInt 2)

def contains (box : Envelope α) (x y : α) : Bool :=
  Scalar.le box.minX x && Scalar.le x box.maxX && (Scalar.le box.minY y && Scalar.le y box.maxY)

/-- Nothing can be fitted to a box without width or height. -/
def isDegenerate (box : Envelope α) : Bool :=
  Scalar.same box.width Scalar.zero || Scalar.same box.height Scalar.zero

end Envelope

end Toolpath
