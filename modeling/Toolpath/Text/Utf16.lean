/-! Texts as code points and as UTF-16 code units. A code point is a character, or half of a surrogate pair that
stands alone. In units the halves of a pair stand beside each other, so where two of them happen to be
neighbours as code points, the units are those of the character that the pair stands for. -/
namespace Toolpath.Text

abbrev CodePoint := Fin 0x110000

def pointOfChar (c : Char) : CodePoint := Fin.ofNat 0x110000 c.toNat

def isHighHalf (n : Nat) : Bool := 0xD800 ≤ n && n < 0xDC00

def isLowHalf (n : Nat) : Bool := 0xDC00 ≤ n && n < 0xE000

/-- A half alone is read as the replacement character. -/
def charOfPoint (p : CodePoint) : Char :=
  if isHighHalf p.val || isLowHalf p.val then Char.ofNat 0xFFFD else Char.ofNat p.val

def ofPoints (points : List CodePoint) : List Char := points.map charOfPoint

def unitsOfPoint (p : CodePoint) : List UInt16 :=
  if p.val < 0x10000 then [UInt16.ofNat p.val]
  else [UInt16.ofNat (0xD800 + (p.val - 0x10000) / 0x400), UInt16.ofNat (0xDC00 + (p.val - 0x10000) % 0x400)]

def unitsOfPoints (points : List CodePoint) : List UInt16 := points.flatMap unitsOfPoint

instance : Coe (List CodePoint) (List UInt16) := ⟨unitsOfPoints⟩

/-- The code points of units: a pair is one, and any other unit is one of its own. -/
def pointsOfUnits : List UInt16 → List CodePoint
  | [] => []
  | [u] => [Fin.ofNat 0x110000 u.toNat]
  | u :: v :: rest =>
    if isHighHalf u.toNat && isLowHalf v.toNat then
      Fin.ofNat 0x110000 (0x10000 + (u.toNat - 0xD800) * 0x400 + (v.toNat - 0xDC00)) :: pointsOfUnits rest
    else Fin.ofNat 0x110000 u.toNat :: pointsOfUnits (v :: rest)

def unitsOfChar (c : Char) : List UInt16 := unitsOfPoint (pointOfChar c)

def toUnits (cs : List Char) : List UInt16 := cs.flatMap unitsOfChar

def ofUnits (units : List UInt16) : List Char := ofPoints (pointsOfUnits units)

end Toolpath.Text
