import Toolpath.Numeric.Binary64

/-! The shortest decimal that reads back as a double. The reals that round to a double form an interval around
it, ends included exactly if its significand is even. The search goes from coarse powers of ten to fine ones
and takes the first whose multiples meet the interval: of two such multiples the nearer, of two equally near
the even one. It ends because every double is itself a multiple of 10^-1074. -/
namespace Toolpath.Decimal

/-- `digits * 10 ^ exponent`. -/
structure Scaled where
  digits : Nat
  exponent : Int
  deriving DecidableEq

/-- The interval around a double in quarters of a unit, and whether it holds its ends. Below a power of two
the neighbours lie closer. -/
structure ReadingInterval where
  low : Nat
  value : Nat
  high : Nat
  closed : Bool

def ReadingInterval.ofUnits (units : Nat) : ReadingInterval :=
  let scale := Binary64.scaleOfUnits units
  let step := 1 <<< scale
  let narrow := decide (units = 1 <<< (scale + 52)) && decide (0 < scale)
  { low := 4 * units - if narrow then step else 2 * step
    value := 4 * units
    high := 4 * units + 2 * step
    closed := (units >>> scale) % 2 == 0 }

/-- Whether `candidate * num / den` quarters lie in the interval. -/
def ReadingInterval.admits (interval : ReadingInterval) (num den candidate : Nat) : Bool :=
  let scaled := candidate * num
  if interval.closed then interval.low * den ≤ scaled && scaled ≤ interval.high * den
  else interval.low * den < scaled && scaled < interval.high * den

/-- The multiple of `num / den` quarters that lies in the interval, the nearest if there are two. -/
def ReadingInterval.multiple? (interval : ReadingInterval) (num den : Nat) : Option Nat :=
  let below := interval.value * den / num
  let nearest := roundQuotient (interval.value * den) num
  if interval.admits num den nearest then some nearest
  else if interval.admits num den below then some below
  else if interval.admits num den (below + 1) then some (below + 1)
  else none

/-- `10 ^ exponent` in quarters of a unit, as a quotient. -/
def powerOfTen (exponent : Int) : Nat × Nat :=
  if 0 ≤ exponent then (Nat.pow 10 exponent.toNat * (4 * oneUnits), 1)
  else (4 * oneUnits, Nat.pow 10 (-exponent).toNat)

def searchShortest (interval : ReadingInterval) : Nat → Int → Scaled
  | 0, exponent => ⟨0, exponent⟩
  | fuel + 1, exponent =>
    let (num, den) := powerOfTen exponent
    match interval.multiple? num den with
    | some digits => if digits = 0 then searchShortest interval fuel (exponent - 1) else ⟨digits, exponent⟩
    | none => searchShortest interval fuel (exponent - 1)

/-- A power of ten above the magnitude: 0.30103 exceeds the decimal logarithm of two. -/
def coarseExponent (units : Nat) : Int := ((units.log2 : Int) - 1073) * 30103 / 100000 + 2

def shortest (units : Nat) : Scaled :=
  if units = 0 then ⟨0, 0⟩
  else
    let start := coarseExponent units
    searchShortest (.ofUnits units) (start + 1075).toNat start

end Toolpath.Decimal
