import Toolpath.Decimal.Fixed
import Toolpath.Decimal.Notation
import Toolpath.Fault
import Toolpath.Motion
import Toolpath.Numeric.Double
import Toolpath.Text.Lines

/-! Writing moves as words. Coordinates have a fixed number of places; constants have their shortest digits.
Neither ever has an exponent, which a word could not hold. -/
namespace Toolpath.Gcode

/-- The greatest count of decimals that can be asked for. -/
def maxPlaces : Int := 2147483647

/-- With so many decimals no number that is written has more than a thousand million digits, which is as many as
can be read: a finite coordinate has at most 309 before the point. What becomes of more decimals is left open up to
`maxPlaces`. -/
def readablePlaces : Int := 999999691

theorem places_of_readable {precision : Int} (readable : precision ≤ readablePlaces) : precision ≤ maxPlaces :=
  Int.le_trans readable (by decide)

def places? (precision : Int) : Except Fault Nat :=
  if 0 ≤ precision ∧ precision ≤ maxPlaces then .ok precision.toNat else .error .unusablePrecision

/-- A coordinate with a fixed number of places. What rounds to zero has no sign. -/
def coordinate (places : Nat) (x : Float) : List Char :=
  match Binary64.ofFloat x with
  | .finite negative units =>
    let n := Decimal.scaledMagnitude places units
    Decimal.signed (negative && n != 0) (Decimal.withPlaces places n)
  | _ => Decimal.fixed places x

def coordinate? (precision : Int) (x : Float) : Except Fault (List Char) :=
  (places? precision).map fun places => coordinate places x

def constant (x : Float) : List Char := Decimal.plain x

def pointWords (places : Nat) (x y : Float) : List Char :=
  "X".toList ++ coordinate places x ++ " Y".toList ++ coordinate places y

def moveLine (places : Nat) (feed : Float) (move : Move Float) : List Char :=
  move.kind.word.toList ++ ' ' :: pointWords places move.x move.y ++
    if move.feed != feed then " F".toList ++ constant move.feed else []

/-- F is written whenever it differs from the feed before, zero at first. -/
def moveLines (places : Nat) (feed : Float) : List (Move Float) → List (List Char)
  | [] => []
  | move :: rest =>
    moveLine places feed move :: moveLines places (if move.feed != feed then move.feed else feed) rest

/-- The precision matters only if a number is written. -/
def emit (precision : Int) (moves : List (Move Float)) : Except Fault (List Char) :=
  match moves with
  | [] => .ok []
  | _ :: _ => (places? precision).map fun places => Text.joinLines (moveLines places 0 moves)

end Toolpath.Gcode
