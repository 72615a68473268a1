import Toolpath.Geometry.Envelope

/-! The reference grid behind a path: lines on the multiples of a spacing, snapped outwards from the box, some
of them major. -/
namespace Toolpath

structure GridLine (α : Type) where
  x1 : α
  y1 : α
  x2 : α
  y2 : α
  major : Bool

namespace Grid
variable {α : Type} [Scalar α] [Whole α]

/-- 10^-9: how far from a multiple a line may lie and still be major. -/
def tolerance : α := Scalar.ofInt 1 / Scalar.ofInt 1000000000

def isMajor (value every : α) : Except Fault Bool := do
  let rest ← Whole.remainder value every
  return Scalar.le rest tolerance && Scalar.le (Scalar.zero - tolerance) rest

def snapDown (value spacing : α) : Except Fault α := do
  let n ← Whole.floor (← Scalar.quotient value spacing)
  return Scalar.ofInt n * spacing

def snapUp (value spacing : α) : Except Fault α := do
  let n ← Whole.ceiling (← Scalar.quotient value spacing)
  return Scalar.ofInt n * spacing

/-- The coordinates of the lines from `start` to `stop`, each with its rank. -/
def ticks (start stop spacing every : α) : Except Fault (List (α × Bool)) := do
  let count ← Whole.nearest (← Scalar.quotient (stop - start) spacing)
  (List.range (count + 1).toNat).mapM fun i : Nat => do
    let value := start + Scalar.ofInt ↑i * spacing
    return (value, ← isMajor value every)

/-- Vertical lines from left to right, then horizontal ones upwards. -/
def lines (box : Envelope α) (spacing every : α) : Except Fault (List (GridLine α)) := do
  let startX ← snapDown box.minX spacing
  let stopX ← snapUp box.maxX spacing
  let startY ← snapDown box.minY spacing
  let stopY ← snapUp box.maxY spacing
  let vertical ← ticks startX stopX spacing every
  let horizontal ← ticks startY stopY spacing every
  return vertical.map (fun (x, major) => ⟨x, startY, x, stopY, major⟩) ++
    horizontal.map (fun (y, major) => ⟨startX, y, stopX, y, major⟩)

end Grid

end Toolpath
