import Toolpath.Decimal.Fixed
import Toolpath.Decimal.Shortest

/-! Written forms of doubles. `exact` writes the shortest digits, with an exponent outside the range where a
point is easy to place; `plain` writes them without any exponent; `scientific` and `general` round to a
number of significant digits. -/
namespace Toolpath.Decimal

/-- `digits * 10 ^ exponent` without an exponent. -/
def positional (s : Scaled) : List Char :=
  if 0 ≤ s.exponent then natural (s.digits * Nat.pow 10 s.exponent.toNat)
  else
    let unit := Nat.pow 10 (-s.exponent).toNat
    natural (s.digits / unit) ++ '.' :: padded (-s.exponent).toNat (s.digits % unit)

/-- The exponent of ten of the first digit. -/
def Scaled.leading (s : Scaled) : Int := s.exponent + (natural s.digits).length - 1

/-- A sign always, and two digits at least. -/
def exponentText (exponent : Int) : List Char :=
  'e' :: (if exponent < 0 then '-' else '+') :: padded 2 exponent.natAbs

/-- One digit, a point if more follow, and the exponent. -/
def withExponent (s : Scaled) : List Char :=
  match natural s.digits with
  | [] => []
  | [first] => first :: exponentText s.leading
  | first :: rest => first :: '.' :: rest ++ exponentText s.leading

/-- How the values that are no finite number are spelt. -/
structure Names where
  nan : String
  infinite : String

def Names.lower : Names := ⟨"nan", "inf"⟩

def Names.capital : Names := ⟨"NaN", "Infinity"⟩

/-- Writes any double, given the names and a text for the units of a finite magnitude. -/
def write (names : Names) (magnitude : Nat → List Char) (x : Float) : List Char :=
  match Binary64.ofFloat x with
  | .nan => names.nan.toList
  | .infinite negative => signed negative names.infinite.toList
  | .finite negative units => signed negative (magnitude units)

/-- Positional from 0.0001 up to below 10^16, always with a point there. -/
def exactMagnitude (units : Nat) : List Char :=
  let s := shortest units
  if units = 0 then "0.0".toList
  else if -4 ≤ s.leading ∧ s.leading < 16 then
    if 0 ≤ s.exponent then positional s ++ ".0".toList else positional s
  else withExponent s

/-- The shortest text that reads back, zeros with their sign. -/
def exact (x : Float) : List Char := write .lower exactMagnitude x

/-- Whether a magnitude is a whole number. -/
def isWhole (units : Nat) : Bool := units % oneUnits == 0

/-- A whole number as such, whatever its length, and without a sign for zero; anything else by its shortest
digits without an exponent. -/
def plain (x : Float) : List Char :=
  match Binary64.ofFloat x with
  | .finite negative units =>
    if isWhole units then signed (negative && units != 0) (natural (units / oneUnits))
    else signed negative (positional (shortest units))
  | _ => write .capital (fun _ => []) x

/-- The least exponent from the given one up whose next power of ten exceeds the magnitude. -/
def leadingExponentFrom (units : Nat) : Nat → Int → Int
  | 0, exponent => exponent
  | fuel + 1, exponent =>
    let (num, den) := powerOfTen (exponent + 1)
    if 4 * units * den < num then exponent else leadingExponentFrom units fuel (exponent + 1)

/-- The exponent of ten of a positive magnitude's first digit. -/
def leadingExponent (units : Nat) : Int := leadingExponentFrom units 8 (coarseExponent units - 5)

/-- A magnitude rounded to `count` significant digits. -/
def significant (count units : Nat) : Scaled :=
  let exponent := leadingExponent units - ↑(count - 1)
  let (num, den) := powerOfTen exponent
  let digits := roundQuotient (4 * units * den) num
  if digits < Nat.pow 10 count then ⟨digits, exponent⟩ else ⟨Nat.pow 10 (count - 1), exponent + 1⟩

/-- One digit before the point and `places` after it. -/
def scientificMagnitude (places units : Nat) : List Char :=
  if units = 0 then withPlaces places 0 ++ exponentText 0
  else
    let s := significant (places + 1) units
    withPlaces places s.digits ++ exponentText s.leading

def scientific (places : Nat) (x : Float) : List Char := write .lower (scientificMagnitude places) x

def Scaled.trim (s : Scaled) : Nat → Scaled
  | 0 => s
  | fuel + 1 => if s.digits % 10 = 0 then Scaled.trim ⟨s.digits / 10, s.exponent + 1⟩ fuel else s

/-- Positional while the exponent of the first digit is from -4 up to below `count`; no zeros at the end. -/
def generalMagnitude (count units : Nat) : List Char :=
  if units = 0 then ['0']
  else
    let s := (significant count units).trim count
    if -4 ≤ s.leading ∧ s.leading < count then positional s else withExponent s

def general (count : Nat) (x : Float) : List Char := write .lower (generalMagnitude count) x

end Toolpath.Decimal
