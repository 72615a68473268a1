import Toolpath.Numeric.Binary64
import Toolpath.Text.Blank
import Toolpath.Text.Digit

/-! Reading decimal texts. Blanks around a text do not count, digits of every script do, and a single low line
may stand between two digits. A number with a point or an exponent reads as the nearest double; the words for
infinity and for no number are read in any letter case. -/
namespace Toolpath.Decimal

/-- The digits and the letters of ASCII stand for themselves, digits of other scripts for their values, and
anything else beyond ASCII for a character that no number holds. -/
def asciiForm (c : Char) : Char :=
  if c.toNat < 128 then c
  else match Text.digitValue? c with
    | some value => Char.ofNat (48 + value)
    | none => '?'

/-- The blanks that may surround a number: all but the four separators U+001C to U+001F. -/
def isMargin (c : Char) : Bool := Text.isBlank c && !(0x1C ≤ c.toNat && c.toNat ≤ 0x1F)

def trimMargins (cs : List Char) : List Char :=
  ((cs.dropWhile isMargin).reverse.dropWhile isMargin).reverse

/-- Drops each low line between two digits and refuses any other. The flag tells whether a digit came last. -/
def joinGroups : Bool → List Char → Option (List Char)
  | _, [] => some []
  | afterDigit, '_' :: rest =>
    match rest with
    | [] => none
    | next :: _ => if afterDigit && next.isDigit then joinGroups false rest else none
  | _, c :: rest => (joinGroups c.isDigit rest).map (c :: ·)

/-- A text in the form that the readers below take. -/
def normalForm (cs : List Char) : Option (List Char) := joinGroups false ((trimMargins cs).map asciiForm)

/-- The value of a digit string, continued from `n`. -/
def digitsFrom (n : Nat) (cs : List Char) : Nat := cs.foldl (fun n c => 10 * n + (c.toNat - 48)) n

def digitsValue (cs : List Char) : Nat := digitsFrom 0 cs

def splitSign : List Char → Bool × List Char
  | '-' :: rest => (true, rest)
  | '+' :: rest => (false, rest)
  | rest => (false, rest)

/-- The exponent written after the digits; nothing is the exponent zero. -/
def exponent? : List Char → Option Int
  | [] => some 0
  | c :: rest =>
    if c = 'e' ∨ c = 'E' then
      let (negative, digits) := splitSign rest
      if digits ≠ [] ∧ digits.all Char.isDigit then
        some (if negative then -(digitsValue digits : Int) else digitsValue digits)
      else none
    else none

/-- The double nearest to `digits * 10 ^ exponent`. Exponents so far out that every value there is infinite or
zero need no power of ten. -/
def toFloat (negative : Bool) (digits : Nat) (exponent : Int) : Float :=
  if digits = 0 then Binary64.nearest negative 0 1
  else if 400 < exponent then Binary64.infiniteValue negative
  else if exponent < -(digits.log2 + 401 : Nat) then Binary64.nearest negative 0 1
  else if 0 ≤ exponent then Binary64.ofQuotient negative (digits * Nat.pow 10 exponent.toNat) 1
  else Binary64.ofQuotient negative digits (Nat.pow 10 (-exponent).toNat)

/-- An unsigned number: digits with at most one point, then an exponent. -/
def unsigned? (negative : Bool) (cs : List Char) : Option Float :=
  let whole := cs.takeWhile Char.isDigit
  let afterWhole := cs.dropWhile Char.isDigit
  let (part, rest) := match afterWhole with
    | '.' :: more => (more.takeWhile Char.isDigit, more.dropWhile Char.isDigit)
    | more => ([], more)
  if whole = [] ∧ part = [] then none
  else (exponent? rest).map fun exponent =>
    toFloat negative (digitsValue (whole ++ part)) (exponent - part.length)

def float? (cs : List Char) : Option Float :=
  (normalForm cs).bind fun text =>
    let (negative, rest) := splitSign text
    let word := String.ofList (rest.map Char.toLower)
    if word = "inf" ∨ word = "infinity" then some (Binary64.infiniteValue negative)
    else if word = "nan" then some Binary64.nanValue
    else unsigned? negative rest

def finite? (cs : List Char) : Option Float :=
  match float? cs with
  | some x => if Binary64.isFinite x then some x else none
  | none => none

/-- The greatest number of digits that an integer may be written with. -/
def maxIntegerDigits : Nat := 4300

def int? (cs : List Char) : Option Int :=
  (normalForm cs).bind fun text =>
    let (negative, digits) := splitSign text
    if digits ≠ [] ∧ digits.all Char.isDigit ∧ digits.length ≤ maxIntegerDigits then
      some (if negative then -(digitsValue digits : Int) else digitsValue digits)
    else none

end Toolpath.Decimal
