/-! The shapes that a drawing is made of. What a drawing leaves out is zero. -/
namespace Toolpath.Drawing

/-- Arcs run counter-clockwise, their angles are in degrees. -/
inductive Entity where
  | line (x1 y1 x2 y2 : Float)
  | polyline (points : List (Float × Float)) (closed : Bool)
  | circle (cx cy r : Float)
  | arc (cx cy r start stop : Float)
  /-- A shape that no path can be made of, by the name of its kind. -/
  | unsupported (kind : String)

end Toolpath.Drawing
