import Toolpath.Numeric.Circular
import Toolpath.Numeric.Root
import Toolpath.Numeric.Whole
import Toolpath.Scalar

/-! Doubles as scalars. The four operations and the comparisons are those of the double format; the rest is
computed exactly and rounded once. -/
namespace Toolpath

instance : Scalar Float where
  ofInt := Binary64.ofInt
  ratio := Binary64.ratio
  lt a b := decide (a < b)
  le a b := decide (a ≤ b)
  same a b := a == b

instance : Metric Float := ⟨Binary64.hypot⟩

instance : Angular Float := ⟨Circular.sineDegrees, Circular.cosineDegrees, Binary64.modulo⟩

instance : Whole Float := ⟨Binary64.floor, Binary64.ceiling, Binary64.nearestWhole, Binary64.remainder⟩

end Toolpath
