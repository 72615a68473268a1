import Toolpath.Fault
import Toolpath.Numeric.Binary64

/-! Whole numbers and remainders of doubles, computed on units and so exact. -/
namespace Toolpath.Binary64

/-- A finite double as an integer number of units. -/
def signedUnits (negative : Bool) (units : Nat) : Int := if negative then -(units : Int) else units

/-- Reads off an integer; the values that are no finite number have none. -/
def wholeBy (read : Int → Int) (x : Float) : Except Fault Int :=
  match ofFloat x with
  | .nan => .error .notANumber
  | .infinite _ => .error .tooLarge
  | .finite negative units => .ok (read (signedUnits negative units))

def floor (x : Float) : Except Fault Int := wholeBy (fun n => n.fdiv oneUnits) x

def ceiling (x : Float) : Except Fault Int := wholeBy (fun n => -((-n).fdiv oneUnits)) x

/-- Toward zero. -/
def truncate (x : Float) : Except Fault Int := wholeBy (fun n => n.tdiv oneUnits) x

/-- The nearest integer, a half going to the even one. -/
def nearestWhole (x : Float) : Except Fault Int :=
  wholeBy (fun n =>
    let magnitude := roundQuotient n.natAbs oneUnits
    if n < 0 then -(magnitude : Int) else magnitude) x

/-- The double nearest to a quotient, which may be too large for one. -/
def ratio (num : Int) (den : Nat) : Except Fault Float :=
  let x := ofQuotient (num < 0) num.natAbs den
  if isFinite x then .ok x else .error .tooLarge

/-- The remainder of a division by a positive double, between zero and it. A negative value's remainder is
the rounded difference from the modulus. -/
def modulo (x modulus : Float) : Float :=
  match ofFloat x, ofFloat modulus with
  | .finite negative units, .finite _ m =>
    let rest := units % m
    if negative && rest != 0 then nearest false (m - rest) 1 else nearest false rest 1
  | .finite _ _, .infinite _ => x
  | _, _ => nanValue

/-- What the nearest multiple of `step` leaves of `x`; a remainder of zero keeps the sign of `x`. -/
def remainder (x step : Float) : Except Fault Float :=
  match ofFloat x, ofFloat step with
  | .nan, _ | _, .nan => .ok nanValue
  | .infinite _, _ => .error .outsideDomain
  | .finite _ _, .infinite _ => .ok x
  | .finite negative units, .finite _ s =>
    if s = 0 then .error .outsideDomain
    else
      let rest := units % s
      let passesHalf := s < 2 * rest || (s == 2 * rest && units / s % 2 == 1)
      .ok (if passesHalf then nearest (!negative) (s - rest) 1 else nearest negative rest 1)

end Toolpath.Binary64
