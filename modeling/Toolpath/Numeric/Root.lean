import Toolpath.Numeric.Binary64

/-! Square roots of naturals and the length of a double vector. `squareRoot` gives the greatest natural whose
square does not exceed its argument. The length is the correctly rounded root of the exact sum of squares, so
it neither overflows nor underflows on the way. -/
namespace Toolpath

/-- Newton's descent towards the root of `n` from a guess above it. -/
def rootDescent (n : Nat) : Nat → Nat → Nat
  | 0, guess => guess
  | fuel + 1, guess =>
    let next := (guess + n / guess) / 2
    if next < guess then rootDescent n fuel next else guess

/-- A guess comes from the root of the front half of the digits; one more than that is above the root. -/
def squareRoot (n : Nat) : Nat :=
  if h : n < 4 then min n 1
  else
    let dropped := n.log2 / 4 + 1
    let guess := (squareRoot (n >>> (2 * dropped)) + 1) <<< dropped
    rootDescent n guess guess
termination_by n
decreasing_by
  rw [Nat.shiftRight_eq_div_pow]
  exact Nat.div_lt_self (by omega) (Nat.one_lt_two_pow (by omega))

namespace Binary64

/-- The length of the vector whose sides have these codes, counted in units of the smaller one's scale. One
further bit of the root decides every rounding: a nonzero remainder only says on which side of a half the exact
length lies. -/
def lengthOfCodes (a b : Nat) : Float :=
  let scale :=
    if a = 0 then scaleOfCode b else if b = 0 then scaleOfCode a else min (scaleOfCode a) (scaleOfCode b)
  let x := significandOfCode a <<< (scaleOfCode a - scale)
  let y := significandOfCode b <<< (scaleOfCode b - scale)
  let squares := (x * x + y * y) <<< 2
  let root := squareRoot squares
  let sticky := if root * root = squares then 0 else 1
  ofCode false (codeOfScaled scale (2 * root + sticky) 4)

/-- An infinite side makes the length infinite whatever the other is. -/
def hypot (x y : Float) : Float :=
  let a := codeOfFloat x
  let b := codeOfFloat y
  if a = infinityCode ∨ b = infinityCode then infiniteValue false
  else if infinityCode < a ∨ infinityCode < b then nanValue
  else lengthOfCodes a b

end Binary64

end Toolpath
