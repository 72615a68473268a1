import Toolpath.Decimal.Notation
import Toolpath.Json.Value
import Toolpath.Text.Printable

/-! Texts in quotes, as notes show them: single quotes, or double ones if the text holds a single quote and no
double one. Backslashes and the quote in use are escaped, and so is whatever is not printable. Values are shown
in the same way, with their texts in quotes. -/
namespace Toolpath.Text

def hexText (width n : Nat) : List Char :=
  let digits := Nat.toDigits 16 n
  List.replicate (width - digits.length) '0' ++ digits

/-- A character by its number. -/
def escapedChar (c : Char) : List Char :=
  if c.toNat < 0x100 then '\\' :: 'x' :: hexText 2 c.toNat
  else if c.toNat < 0x10000 then '\\' :: 'u' :: hexText 4 c.toNat
  else '\\' :: 'U' :: hexText 8 c.toNat

/-- A text with everything beyond ASCII escaped. -/
def asciiEscaped (cs : List Char) : List Char := cs.flatMap fun c => if c.toNat < 0x80 then [c] else escapedChar c

def quotedChar (quote c : Char) : List Char :=
  if c = quote ∨ c = '\\' then ['\\', c]
  else if c = '\n' then ['\\', 'n']
  else if c = '\r' then ['\\', 'r']
  else if c = '\t' then ['\\', 't']
  else if isPrintable c then [c]
  else escapedChar c

def quoted (cs : List Char) : List Char :=
  let quote := if cs.contains '\'' && !cs.contains '"' then '"' else '\''
  quote :: cs.flatMap (quotedChar quote) ++ [quote]

end Toolpath.Text

namespace Toolpath.Json

mutual

/-- A value with its texts in quotes. -/
def quoted : Json → List Char
  | .null => "None".toList
  | .bool b => (if b then "True" else "False").toList
  | .int n => Decimal.integer n
  | .real x => Decimal.exact x
  | .text points => Text.quoted (Text.ofPoints points)
  | .array [] => "[]".toList
  | .array (first :: rest) => '[' :: quoted first ++ quotedItems rest ++ [']']
  | .object [] => "\x7b\x7d".toList
  | .object (first :: rest) => '{' :: quotedField first ++ quotedFields rest ++ ['}']

def quotedItems : List Json → List Char
  | [] => []
  | item :: rest => ", ".toList ++ quoted item ++ quotedItems rest

def quotedField : List UInt16 × Json → List Char
  | (name, value) => Text.quoted (Text.ofUnits name) ++ ": ".toList ++ quoted value

def quotedFields : List (List UInt16 × Json) → List Char
  | [] => []
  | field :: rest => ", ".toList ++ quotedField field ++ quotedFields rest

end

/-- A value as part of a sentence: a text as it is, anything else as in quotes. -/
def shown : Json → List Char
  | .text points => Text.ofPoints points
  | value => quoted value

end Toolpath.Json
