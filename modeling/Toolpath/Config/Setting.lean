import Toolpath.Decimal.Reading
import Toolpath.Fault
import Toolpath.Json.Value
import Toolpath.Numeric.Whole

/-! Settings are stored as whatever value was written for them; these functions say what a value is worth where
a number is needed. -/
namespace Toolpath.Setting

/-- An integer as a coordinate, which it may be too large for. -/
def realOfInt (n : Int) : Except Fault Float :=
  let x := Binary64.ofInt n
  if Binary64.isFinite x then .ok x else .error .tooLarge

/-- A whole number: reals are cut toward zero, texts are read. -/
def whole (value : Json) : Except Fault Int :=
  match value with
  | .bool b => .ok (if b then 1 else 0)
  | .int n => .ok n
  | .real x => Binary64.truncate x
  | .text points => match Decimal.int? (Text.ofPoints points) with
    | some n => .ok n
    | none => .error .unreadableText
  | .null | .array _ | .object _ => .error .unsuitableValue

/-- A constant, which may also be written as a text. -/
def constant (value : Json) : Except Fault Float :=
  match value with
  | .bool b => .ok (if b then 1 else 0)
  | .int n => realOfInt n
  | .real x => .ok x
  | .text points => match Decimal.float? (Text.ofPoints points) with
    | some x => .ok x
    | none => .error .unreadableText
  | .null | .array _ | .object _ => .error .unsuitableValue

/-- A measure to calculate with, for which a text does not do. -/
def measure (value : Json) : Except Fault Float :=
  match value with
  | .bool b => .ok (if b then 1 else 0)
  | .int n => realOfInt n
  | .real x => .ok x
  | .text _ | .null | .array _ | .object _ => .error .unsuitableValue

/-- How often something is repeated. -/
def count? (value : Json) : Option Int :=
  match value with
  | .bool b => some (if b then 1 else 0)
  | .int n => some n
  | .real _ | .text _ | .null | .array _ | .object _ => none

/-- A number of decimals; what cannot be one counts as negative, which is refused when a number is written. -/
def precision (value : Json) : Int :=
  match value with
  | .int n => n
  | .text points =>
    let digits := (Text.ofPoints points).map Decimal.asciiForm
    if digits ≠ [] ∧ digits.all Char.isDigit then Decimal.digitsValue digits else -1
  | .bool _ | .real _ | .null | .array _ | .object _ => -1

end Toolpath.Setting
