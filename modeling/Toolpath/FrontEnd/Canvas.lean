/-! What a picture consists of: marks, in the order in which they are laid on. A picture is a value; whoever
shows it draws its marks one after the other. -/
namespace Toolpath

structure Pen where
  color : String
  width : Nat
  /-- Lengths of dashes and gaps in pen widths; none for a solid line. -/
  dashes : List Float

inductive Brush where
  | plain (color : String)
  /-- Colours by their distance from the centre, from zero to one. -/
  | radial (stops : List (Float × String))

inductive CanvasMark where
  | background (color : String)
  | line (pen : Pen) (opacity x1 y1 x2 y2 : Float)
  | disc (brush : Brush) (x y : Float) (radius : Nat)
  | label (color : String) (x y : Float) (text : String)

end Toolpath
