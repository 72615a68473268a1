import Toolpath.Fault
import Toolpath.Numeric.Binary64

/-! Sine and cosine of a double, computed in integers. The angle is reduced by the nearest multiple
of a quarter turn with 1280 binary places, which leaves 256 good ones even for the greatest doubles; the Taylor
sums run on those 256. Both results are then rounded once. Angles below 2^-30 need no sum: there sine is the angle
and cosine is one, to the last bit. -/
namespace Toolpath.Circular

def wideBits : Nat := 1280

def sumBits : Nat := 256

/-- The alternating sum of `power / odd`, with `power` divided by `square` from term to term. -/
def arctanTerms (square : Nat) : Nat → Nat → Nat → Int
  | 0, _, _ => 0
  | fuel + 1, power, odd =>
    if power = 0 then 0 else ↑(power / odd) - arctanTerms square fuel (power / square) (odd + 2)

/-- The arc tangent of `1 / k` with `wideBits` binary places. -/
def arctanInverse (k : Nat) : Int := arctanTerms (k * k) wideBits (1 <<< wideBits / k) 1

/-- Half of pi with `wideBits` binary places, by Machin's formula. -/
def halfPi : Nat := (8 * arctanInverse 5 - 2 * arctanInverse 239).toNat

/-- The sum that starts with `term`, each next term being the last one times `-square / (n * (n + 1))`,
with `sumBits` binary places. -/
def taylorTerms (square : Int) : Nat → Int → Nat → Int
  | 0, _, _ => 0
  | fuel + 1, term, n =>
    if term = 0 then 0
    else term + taylorTerms square fuel (-(term * square / (1 <<< sumBits)) / ↑(n * (n + 1))) (n + 2)

def sineSum (r : Int) : Int := taylorTerms (r * r / (1 <<< sumBits)) 64 r 2

def cosineSum (r : Int) : Int := taylorTerms (r * r / (1 <<< sumBits)) 64 (1 <<< sumBits) 1

/-- The quarter turn nearest to a magnitude, and what is left of the angle, with `sumBits` binary places. -/
def reduce (units : Nat) : Nat × Int :=
  let angle := units <<< (wideBits - 1074)
  let quarter := (2 * angle + halfPi) / (2 * halfPi)
  (quarter % 4, (↑angle - ↑(quarter * halfPi)) / (1 <<< (wideBits - sumBits)))

def rounded (value : Int) : Float := Binary64.nearest (value < 0) (value.natAbs <<< (1074 - sumBits)) 1

/-- Whether the magnitude is below 2^-30. -/
def isTiny (units : Nat) : Bool := units < 1 <<< 1044

/-- The sine of an angle `quarters` quarter turns further than `r`. -/
def sineAt (quarters : Nat) (r : Int) : Int :=
  match quarters % 4 with
  | 0 => sineSum r
  | 1 => cosineSum r
  | 2 => -sineSum r
  | _ => -cosineSum r

def sine (x : Float) : Except Fault Float :=
  match Binary64.ofFloat x with
  | .nan => .ok Binary64.nanValue
  | .infinite _ => .error .outsideDomain
  | .finite negative units =>
    if isTiny units then .ok x
    else
      let (quarter, r) := reduce units
      let value := sineAt quarter r
      .ok (rounded (if negative then -value else value))

def cosine (x : Float) : Except Fault Float :=
  match Binary64.ofFloat x with
  | .nan => .ok Binary64.nanValue
  | .infinite _ => .error .outsideDomain
  | .finite _ units =>
    if isTiny units then .ok (Binary64.ofInt 1)
    else
      let (quarter, r) := reduce units
      .ok (rounded (sineAt (quarter + 1) r))

/-- The double nearest to pi, over 180. -/
def radiansPerDegree : Float := Float.ofBits 0x400921FB54442D18 / Binary64.ofInt 180

def sineDegrees (angle : Float) : Except Fault Float := sine (angle * radiansPerDegree)

def cosineDegrees (angle : Float) : Except Fault Float := cosine (angle * radiansPerDegree)

end Toolpath.Circular
