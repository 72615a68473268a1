import Toolpath.Text.Lines

/-! The program that is shown before any other. -/
namespace Toolpath.Session

def sampleLines : List String := [
  "%",
  "(EKOLAHA RC Foam Board Plane - Vectorized Outline)",
  "(Dimensions: 145.0mm height x 205.0mm width)",
  "(Generated from image contour extraction)",
  "(Feed Rate: 400 mm/min)",
  "(Origin: Bottom-left corner)",
  "",
  "G21         ; Set units to millimeters",
  "G90         ; Absolute positioning",
  "G17         ; XY plane selection",
  "",
  "; Rapid move to start position",
  "G0 X93.564 Y145.000",
  "",
  "; Cut outline",
  "G1 X109.333 Y145.000 F400",
  "G1 X204.650 Y37.886 F400",
  "G1 X199.744 Y0.344 F400",
  "G1 X5.607 Y1.033 F400",
  "G1 X0.000 Y22.043 F400",
  "G1 X1.752 Y39.952 F400",
  "G1 X93.564 Y145.000 F400",
  "",
  "; Return to origin",
  "G0 X0 Y0",
  "",
  "M30         ; Program end",
  "%"]

def sample : List Char := Text.joinLines (sampleLines.map String.toList)

end Toolpath.Session
