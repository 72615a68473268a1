import Toolpath.Decimal.Notation
import Toolpath.Decimal.Reading
import Toolpath.Json.Value

/-! Writing JSON in ASCII: whatever lies beyond is escaped by its code units. Reals have their shortest digits,
and those that are no finite number the words for them. A layout is one line or an indented block. A block goes
out piece by piece, and an integer too long to be written stops it where it stands. -/
namespace Toolpath.Json

inductive Layout where
  | line
  | block
  deriving DecidableEq

def hexDigit (n : Nat) : Char := if n < 10 then Char.ofNat (48 + n) else Char.ofNat (87 + n)

def unitEscape (u : Nat) : List Char :=
  ['\\', 'u', hexDigit (u / 4096 % 16), hexDigit (u / 256 % 16), hexDigit (u / 16 % 16), hexDigit (u % 16)]

def writeUnit (u : UInt16) : List Char :=
  let n := u.toNat
  if n = 0x22 then ['\\', '"']
  else if n = 0x5C then ['\\', '\\']
  else if n = 0x08 then ['\\', 'b']
  else if n = 0x0C then ['\\', 'f']
  else if n = 0x0A then ['\\', 'n']
  else if n = 0x0D then ['\\', 'r']
  else if n = 0x09 then ['\\', 't']
  else if 0x20 ≤ n ∧ n < 0x7F then [Char.ofNat n]
  else unitEscape n

def writeText (units : List UInt16) : List Char := '"' :: units.flatMap writeUnit ++ ['"']

def realNames : Decimal.Names := ⟨"NaN", "Infinity"⟩

def writeReal (x : Float) : List Char := Decimal.write realNames Decimal.exactMagnitude x

/-- A new line in a block, two blanks for each level. -/
def breakLine (layout : Layout) (depth : Nat) : List Char :=
  match layout with
  | .line => []
  | .block => '\n' :: List.replicate (2 * depth) ' '

def separator (layout : Layout) (depth : Nat) : List Char :=
  match layout with
  | .line => [',', ' ']
  | .block => ',' :: breakLine layout depth

mutual

def write (layout : Layout) (depth : Nat) : Json → List Char
  | .null => "null".toList
  | .bool b => (if b then "true" else "false").toList
  | .int n => Decimal.integer n
  | .real x => writeReal x
  | .text points => writeText points
  | .array [] => ['[', ']']
  | .array (first :: rest) =>
    '[' :: breakLine layout (depth + 1) ++ write layout (depth + 1) first ++
      writeItems layout (depth + 1) rest ++ breakLine layout depth ++ [']']
  | .object [] => ['{', '}']
  | .object (first :: rest) =>
    '{' :: breakLine layout (depth + 1) ++ writeField layout (depth + 1) first ++
      writeFields layout (depth + 1) rest ++ breakLine layout depth ++ ['}']

def writeItems (layout : Layout) (depth : Nat) : List Json → List Char
  | [] => []
  | item :: rest => separator layout depth ++ write layout depth item ++ writeItems layout depth rest

def writeField (layout : Layout) (depth : Nat) : List UInt16 × Json → List Char
  | (name, value) => writeText name ++ ": ".toList ++ write layout depth value

def writeFields (layout : Layout) (depth : Nat) : List (List UInt16 × Json) → List Char
  | [] => []
  | field :: rest => separator layout depth ++ writeField layout depth field ++ writeFields layout depth rest

end

def inLine (value : Json) : List Char := write .line 0 value

def inBlock (value : Json) : List Char := write .block 0 value

def isNested : Json → Bool
  | .array _ | .object _ => true
  | .null | .bool _ | .int _ | .real _ | .text _ => false

/-- The pieces of an item behind the sign that leads to it; they go out together unless the item is nested. -/
def ledBy (lead : List Char) (item : Json) (pieces : List (Option (List Char))) : List (Option (List Char)) :=
  if item.isNested then some lead :: pieces else pieces.map (Option.map (lead ++ ·))

mutual

/-- The pieces of a block; none stands for one that cannot be written. -/
def pieces (depth : Nat) : Json → List (Option (List Char))
  | .int n =>
    [if (Decimal.natural n.natAbs).length ≤ Decimal.maxIntegerDigits then some (Decimal.integer n) else none]
  | .array (first :: rest) =>
    ledBy ('[' :: breakLine .block (depth + 1)) first (pieces (depth + 1) first) ++
      itemPieces (depth + 1) rest ++ [some (breakLine .block depth ++ [']'])]
  | .object (first :: rest) =>
    some ('{' :: breakLine .block (depth + 1)) :: fieldPieces (depth + 1) first ++
      moreFieldPieces (depth + 1) rest ++ [some (breakLine .block depth ++ ['}'])]
  | value => [some (write .block depth value)]

def itemPieces (depth : Nat) : List Json → List (Option (List Char))
  | [] => []
  | item :: rest => ledBy (separator .block depth) item (pieces depth item) ++ itemPieces depth rest

def fieldPieces (depth : Nat) : List UInt16 × Json → List (Option (List Char))
  | (name, value) => some (writeText name ++ ": ".toList) :: pieces depth value

def moreFieldPieces (depth : Nat) : List (List UInt16 × Json) → List (Option (List Char))
  | [] => []
  | field :: rest => some (separator .block depth) :: fieldPieces depth field ++ moreFieldPieces depth rest

end

/-- What goes out of a block before the first piece that cannot be written. -/
def writtenPart (value : Json) : List Char :=
  ((value.pieces 0).takeWhile Option.isSome).flatMap fun piece => piece.getD []

end Toolpath.Json
