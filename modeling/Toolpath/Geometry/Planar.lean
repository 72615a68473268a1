import Toolpath.Scalar

/-! Distances, interpolation, and the division of circles and arcs into straight segments. Angles are in
degrees; arcs sweep counter-clockwise from start to end. -/
namespace Toolpath.Planar
variable {α : Type} [Scalar α]

def distance [Metric α] (x1 y1 x2 y2 : α) : α := Metric.length (x2 - x1) (y2 - y1)

/-- The point a fraction `ratio` of the way from the first point to the second. -/
def lerp (x1 y1 x2 y2 ratio : α) : α × α := (x1 + (x2 - x1) * ratio, y1 + (y2 - y1) * ratio)

variable [Angular α]

def pointOnCircle (cx cy radius angle : α) : Except Fault (α × α) := do
  let c ← Angular.cosine angle
  let s ← Angular.sine angle
  return (cx + radius * c, cy + radius * s)

def fullTurn : α := Scalar.ofInt 360

/-- The counter-clockwise sweep, from zero up to below a full turn. A tiny negative difference can round up to
the full turn itself, which is no sweep. -/
def arcSweep (start stop : α) : α :=
  let sweep := Angular.modulo (stop - start) fullTurn
  if Scalar.le fullTurn sweep then Scalar.zero else sweep

/-- One point for each of the numbers 1 to `segments`. The angles are divided by their count, which may be too
large for that. -/
def alongSegments (segments : Int) (point : Int → Except Fault (α × α)) : Except Fault (List (α × α)) :=
  if segments ≤ 0 then return []
  else do
    let _ ← (Scalar.ratio segments 1 : Except Fault α)
    (List.range segments.toNat).mapM fun j : Nat => point (↑j + 1)

/-- The circle from the point after the east one round to the east one. -/
def circlePoints (cx cy radius : α) (segments : Int) : Except Fault (List (α × α)) :=
  alongSegments segments fun j =>
    pointOnCircle cx cy radius (fullTurn * Scalar.ofInt j / Scalar.ofInt segments)

/-- The arc from the point after its start to its end. -/
def arcPoints (cx cy radius start stop : α) (segments : Int) : Except Fault (List (α × α)) :=
  alongSegments segments fun j =>
    pointOnCircle cx cy radius (start + arcSweep start stop * Scalar.ofInt j / Scalar.ofInt segments)

end Toolpath.Planar
