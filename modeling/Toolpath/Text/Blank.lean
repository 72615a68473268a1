/-! Blank characters: the white space of Unicode, with the four separators U+001C to U+001F. Zero-width
characters are not blank. -/
namespace Toolpath.Text

def isBlank (c : Char) : Bool :=
  let n := c.toNat
  (9 ≤ n && n ≤ 13) || (0x1C ≤ n && n ≤ 0x20) || n == 0x85 || n == 0xA0 || n == 0x1680 ||
    (0x2000 ≤ n && n ≤ 0x200A) || n == 0x2028 || n == 0x2029 || n == 0x202F || n == 0x205F || n == 0x3000

def trimStart (cs : List Char) : List Char := cs.dropWhile isBlank

def trimEnd (cs : List Char) : List Char := (cs.reverse.dropWhile isBlank).reverse

def trim (cs : List Char) : List Char := trimEnd (trimStart cs)

/-- How many characters `trimStart` drops. -/
def leadingBlanks (cs : List Char) : Nat := (cs.takeWhile isBlank).length

end Toolpath.Text
