import Toolpath.Config.Setting
import Toolpath.Config.Simulator
import Toolpath.Session.Basic

/-! From stored settings to the numbers that a session works with. A stored value is looked at where it is first
used: the speed and the display when a session is made, the constants when a drawing is compiled, a number of
segments when the first shape needs it. -/
namespace Toolpath
open Drawing

namespace CompilerSettings

/-- The constants, in the order in which a program's header needs them; unusable counts as zero. -/
def resolve (c : CompilerSettings) : Except Fault CompilerConfig := do
  let safeZ ← Setting.constant c.safeZ
  let cutZ ← Setting.constant c.cutZ
  let feedRate ← Setting.constant c.feedRate
  return {
    feedRate
    safeZ
    cutZ
    circleSegments := (Setting.count? c.circleSegments).getD 0
    arcSegments := (Setting.count? c.arcSegments).getD 0
    precision := Setting.precision c.precision }

/-- The lines of an entity; a shape that needs an unusable count has none, once its start is computed. -/
def entityLines (c : CompilerSettings) (config : CompilerConfig) (e : Entity) :
    Except Fault (List (List Char)) :=
  match e, Setting.count? c.circleSegments, Setting.count? c.arcSegments with
  | .circle cx cy r, none, _ => do
    let _ ← Planar.pointOnCircle cx cy r 0
    throw .unsuitableValue
  | .arc cx cy r start _, _, none => do
    let _ ← Planar.pointOnCircle cx cy r start
    throw .unsuitableValue
  | e, _, _ => config.compileEntity e

def compiler (c : CompilerSettings) : Compiler :=
  ⟨fun entities =>
    match c.resolve with
    | .error fault => ([], .error fault)
    | .ok config =>
      (config.logBy (c.entityLines config) entities, config.compileBy (c.entityLines config) entities)⟩

end CompilerSettings

namespace SimulatorConfig

/-- Two measures that are calculated with together: both have to be numbers before either may be too large. -/
def measures (a b : Json) : Except Fault (Float × Float) :=
  match Setting.measure a, Setting.measure b with
  | .error .unsuitableValue, _ | _, .error .unsuitableValue => .error .unsuitableValue
  | .error fault, _ | _, .error fault => .error fault
  | .ok x, .ok y => .ok (x, y)

/-- What a session is made with; how far a tick goes is not looked at before the first tick. -/
def session (c : SimulatorConfig) : Except Fault SessionSettings := do
  let speed ← Setting.whole c.speed
  let (width, padding) ← measures c.displayWidth c.padding
  let (height, _) ← measures c.displayHeight c.padding
  let fitMargin ← Setting.measure c.fitMargin
  return {
    speed
    speedDivisor := (Setting.measure c.speedDivisor).toOption.getD 0
    rapidFactor := (Setting.measure c.rapidFactor).toOption.getD 0
    width
    height
    padding
    fitMargin
    compiler := c.compiler.compiler
    precision := Setting.precision c.compiler.precision }

end SimulatorConfig

end Toolpath
