import Toolpath.Numeric.Rounding

/-! Doubles read exactly. Every finite double is a whole number of units of 2^-1074, the least positive one,
so exact questions about doubles are questions about naturals: decimals, remainders, roots and angles all
work on units and come back through `nearest`. Nothing here goes through the arithmetic of doubles.

A magnitude is coded as the lower 63 bits of the double. With `s` the power of two by which its significand
is scaled, the code is `significand + s * 2^52`, and this one rule covers subnormal and normal doubles and
the carry of a significand that rounds up to 2^53. -/
namespace Toolpath

def signBit : Nat := 1 <<< 63

/-- One, in units of 2^-1074. -/
def oneUnits : Nat := 1 <<< 1074

inductive Binary64 where
  | nan
  | infinite (negative : Bool)
  | finite (negative : Bool) (units : Nat)
  deriving DecidableEq

namespace Binary64

/-- The code of infinity, one past the code of the greatest finite double. -/
def infinityCode : Nat := 0x7FF <<< 52

/-- The power of two, in units, that scales the significand of a coded magnitude. -/
def scaleOfCode (code : Nat) : Nat := code >>> 52 - 1

def significandOfCode (code : Nat) : Nat := code - scaleOfCode code <<< 52

def unitsOfCode (code : Nat) : Nat := significandOfCode code <<< scaleOfCode code

/-- The power of two that scales the significand of a magnitude with this many whole units. -/
def scaleOfUnits (units : Nat) : Nat := units.log2 - 52

/-- The code of the double nearest to `2 ^ scale * num / den` units; a half goes to the even significand, and
what rounds past the greatest finite double is infinite. Unless `scale` is zero the quotient has to reach 2^52,
so that no double lies between two of its halves. -/
def codeOfScaled (scale num den : Nat) : Nat :=
  let more := scaleOfUnits (num / den)
  min (roundQuotient num (den <<< more) + (scale + more) <<< 52) infinityCode

/-- The code of the double nearest to `num / den` units. -/
def codeOfRatio (num den : Nat) : Nat := codeOfScaled 0 num den

def codeOfFloat (x : Float) : Nat := x.toBits.toNat % signBit

def ofFloat (x : Float) : Binary64 :=
  let bits := x.toBits.toNat
  let code := codeOfFloat x
  let negative := decide (signBit ≤ bits)
  if infinityCode < code then .nan
  else if code = infinityCode then .infinite negative
  else .finite negative (unitsOfCode code)

def ofCode (negative : Bool) (code : Nat) : Float :=
  Float.ofBits (UInt64.ofNat (code + if negative then signBit else 0))

/-- The double nearest to `num / den` units, with the sign given. -/
def nearest (negative : Bool) (num den : Nat) : Float := ofCode negative (codeOfRatio num den)

def nanValue : Float := Float.ofBits 0x7FF8000000000000

def infiniteValue (negative : Bool) : Float := ofCode negative infinityCode

def toFloat : Binary64 → Float
  | .nan => nanValue
  | .infinite negative => infiniteValue negative
  | .finite negative units => nearest negative units 1

/-- The double nearest to an integer; one is 2^52 times the unit scaled by 1022. -/
def ofInt (n : Int) : Float :=
  if n = 0 then ofCode false 0 else ofCode (n < 0) (codeOfScaled 1022 (n.natAbs <<< 52) 1)

/-- The double nearest to `num / den`. -/
def ofQuotient (negative : Bool) (num den : Nat) : Float := nearest negative (num * oneUnits) den

def isFinite (x : Float) : Bool :=
  match ofFloat x with
  | .finite _ _ => true
  | _ => false

end Binary64

end Toolpath
