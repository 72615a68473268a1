import Toolpath.Geometry.Envelope

/-! A view maps world units, with y upwards, to a display in pixels, with y downwards: one scale for both axes
and an offset for each. -/
namespace Toolpath

structure View (α : Type) where
  width : α
  height : α
  scale : α
  offsetX : α
  offsetY : α
  padding : α
  fitMargin : α

namespace View
variable {α : Type} [Scalar α]

/-- The view of a display before anything is fitted to it. -/
def plain (width height padding fitMargin : α) : View α :=
  ⟨width, height, Scalar.ofInt 1, Scalar.zero, Scalar.zero, padding, fitMargin⟩

def usable (length padding : α) : α := length - padding * Scalar.ofInt 2

/-- The scale at which a box that has both dimensions fills the padded display up to the margin. -/
def fitScale (view : View α) (box : Envelope α) (width height : α) : α :=
  Scalar.min (usable width view.padding / box.width) (usable height view.padding / box.height) * view.fitMargin

/-- The offset that centres the extent from `low` in what the padding leaves of `length`. -/
def centredOffset (padding length extent low scale : α) : α :=
  padding + (usable length padding - extent * scale) / Scalar.ofInt 2 - low * scale

/-- Fits the box into a display of the given size. A box without width or height, and a display smaller than
its own padding, leave the scale and the offsets as they were. -/
def refit (view : View α) (box : Envelope α) (width height : α) : View α :=
  let scale := view.fitScale box width height
  if box.isDegenerate || Scalar.le scale Scalar.zero then { view with width, height }
  else
    { view with
      width, height, scale
      offsetX := centredOffset view.padding width box.width box.minX scale
      offsetY := centredOffset view.padding height box.height box.minY scale }

def fitted (box : Envelope α) (width height padding fitMargin : α) : View α :=
  (plain width height padding fitMargin).refit box width height

def toDisplay (view : View α) (x y : α) : α × α :=
  (x * view.scale + view.offsetX, view.height - (y * view.scale + view.offsetY))

def toWorld (view : View α) (dx dy : α) : Except Fault (α × α) := do
  let x ← Scalar.quotient (dx - view.offsetX) view.scale
  let y ← Scalar.quotient (view.height - dy - view.offsetY) view.scale
  return (x, y)

end View

end Toolpath
