import Toolpath.Decimal.Digits
import Toolpath.Text.Utf16

/-! Values of the data format JSON. Integers and reals are told apart, texts are code points, and an object keeps
its fields in the order in which their names first came. The names are UTF-16 code units: they are only
ever read or spelled out, and no text that is read has the halves of a pair apart. -/
namespace Toolpath

inductive Json where
  | null
  | bool (b : Bool)
  | int (n : Int)
  | real (x : Float)
  | text (points : List Text.CodePoint)
  | array (items : List Json)
  | object (fields : List (List UInt16 × Json))

namespace Json

def ofChars (cs : List Char) : Json := .text (cs.map Text.pointOfChar)

def ofString (s : String) : Json := ofChars s.toList

def key (name : String) : List UInt16 := Text.toUnits name.toList

/-- Sets a field: a name that is there already keeps its place and gets the new value. -/
def put (fields : List (List UInt16 × Json)) (name : List UInt16) (value : Json) : List (List UInt16 × Json) :=
  match fields with
  | [] => [(name, value)]
  | (other, old) :: rest => if other = name then (name, value) :: rest else (other, old) :: put rest name value

mutual

/-- How deep arrays and objects stand in each other. -/
def depth : Json → Nat
  | .null | .bool _ | .int _ | .real _ | .text _ => 0
  | .array items => itemsDepth items + 1
  | .object fields => fieldsDepth fields + 1

def itemsDepth : List Json → Nat
  | [] => 0
  | item :: rest => max item.depth (itemsDepth rest)

def fieldDepth : List UInt16 × Json → Nat
  | (_, value) => value.depth

def fieldsDepth : List (List UInt16 × Json) → Nat
  | [] => 0
  | field :: rest => max (fieldDepth field) (fieldsDepth rest)

end

mutual

/-- How many digits the longest integer has. -/
def integerDigits : Json → Nat
  | .null | .bool _ | .real _ | .text _ => 0
  | .int n => (Decimal.natural n.natAbs).length
  | .array items => itemsDigits items
  | .object fields => fieldsDigits fields

def itemsDigits : List Json → Nat
  | [] => 0
  | item :: rest => max item.integerDigits (itemsDigits rest)

def fieldDigits : List UInt16 × Json → Nat
  | (_, value) => value.integerDigits

def fieldsDigits : List (List UInt16 × Json) → Nat
  | [] => 0
  | field :: rest => max (fieldDigits field) (fieldsDigits rest)

end

end Json

end Toolpath
