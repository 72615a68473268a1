import Toolpath.Fault

/-! The arithmetic that geometry, playback and views are written over. No law is part of these classes:
doubles satisfy few of them, and what needs exact arithmetic says so where it is stated. -/
namespace Toolpath

class Scalar (α : Type) extends Add α, Sub α, Mul α, Div α where
  ofInt : Int → α
  /-- The value of a quotient of whole numbers, the second of them not zero. -/
  ratio : Int → Nat → Except Fault α
  lt : α → α → Bool
  le : α → α → Bool
  same : α → α → Bool

namespace Scalar
variable {α : Type} [Scalar α]

def zero : α := ofInt 0

/-- The second one only if it is less, which settles the case of values that do not compare. -/
def min (a b : α) : α := if lt b a then b else a

/-- The second one only if it is greater. -/
def max (a b : α) : α := if lt a b then b else a

def quotient (a b : α) : Except Fault α := if same b zero then .error .divisionByZero else .ok (a / b)

end Scalar

/-- Lengths of plane vectors. -/
class Metric (α : Type) where
  length : α → α → α

/-- Angles in degrees. `modulo` is the remainder with the sign of a positive modulus. -/
class Angular (α : Type) where
  sine : α → Except Fault α
  cosine : α → Except Fault α
  modulo : α → α → α

/-- Whole numbers near a value. `remainder` is what the nearest multiple leaves; of two equally near the even
multiple counts. -/
class Whole (α : Type) where
  floor : α → Except Fault Int
  ceiling : α → Except Fault Int
  nearest : α → Except Fault Int
  remainder : α → α → Except Fault α

end Toolpath
