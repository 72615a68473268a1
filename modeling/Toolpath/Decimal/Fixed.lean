import Toolpath.Decimal.Digits
import Toolpath.Numeric.Binary64

/-! Doubles with a fixed number of decimal places, rounded on the exact binary value with a half going to the
even last digit. -/
namespace Toolpath.Decimal

/-- The magnitude as a whole number of units in the last decimal place. -/
def scaledMagnitude (places units : Nat) : Nat := roundQuotient (units * Nat.pow 10 places) oneUnits

/-- `n / 10^places` written with exactly that many places. -/
def withPlaces (places n : Nat) : List Char :=
  if places = 0 then natural n
  else natural (n / Nat.pow 10 places) ++ '.' :: padded places (n % Nat.pow 10 places)

/-- The sign of a negative value stays even when all its places round to zero. -/
def fixed (places : Nat) (x : Float) : List Char :=
  match Binary64.ofFloat x with
  | .nan => "nan".toList
  | .infinite negative => signed negative "inf".toList
  | .finite negative units => signed negative (withPlaces places (scaledMagnitude places units))

end Toolpath.Decimal
