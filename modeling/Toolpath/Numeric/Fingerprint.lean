import Toolpath.Numeric.Binary64

/-! Fingerprints of doubles: the value modulo the prime 2^61 - 1, with the sign in front. Equal numbers have
equal fingerprints; a few different ones share theirs, minus one and minus two among them. -/
namespace Toolpath.Binary64

def fingerprintModulus : Nat := 1 <<< 61 - 1

/-- 2^-1074 is 2^24 modulo the prime, since 61 divides 1098. -/
def fingerprintOfUnits (negative : Bool) (units : Nat) : Int :=
  let residue : Nat := units <<< 24 % fingerprintModulus
  let value := if negative then -(residue : Int) else residue
  if value = -1 then -2 else value

/-- No number has no fingerprint of its own. -/
def fingerprint? (x : Float) : Option Int :=
  match ofFloat x with
  | .nan => none
  | .infinite negative => some (if negative then -314159 else 314159)
  | .finite negative units => some (fingerprintOfUnits negative units)

end Toolpath.Binary64
