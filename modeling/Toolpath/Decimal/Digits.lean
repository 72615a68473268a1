/-! Naturals and integers in decimal digits. -/
namespace Toolpath.Decimal

def natural (n : Nat) : List Char := Nat.toDigits 10 n

def integer (n : Int) : List Char := if n < 0 then '-' :: natural n.natAbs else natural n.natAbs

/-- The digits of `n` with zeros in front up to the width. -/
def padded (width n : Nat) : List Char :=
  List.replicate (width - (natural n).length) '0' ++ natural n

def signed (negative : Bool) (text : List Char) : List Char := if negative then '-' :: text else text

end Toolpath.Decimal
