import Toolpath.Text.Lines

/-! The text of an editor as blocks, numbered from zero. How a text becomes blocks, what text they hold and how
positions count in them is a matter of the toolkit that the editor is made with. -/
namespace Toolpath

/-- What an editor uses of a toolkit for text. The text that the blocks of a text hold need not be that text. -/
structure TextKit where
  blocks (text : List Char) : List (List Char)
  plainText (blocks : List (List Char)) : List Char
  /-- Where a block starts. -/
  position (blocks : List (List Char)) (index : Nat) : Nat
  /-- The block that holds a position. -/
  blockAt (blocks : List (List Char)) (position : Nat) : Nat

namespace TextKit

/-- Where a block starts if blocks have these sizes and a position lies between any two. -/
def startOf (size : List Char → Nat) (blocks : List (List Char)) (index : Nat) : Nat :=
  (blocks.take index).foldl (fun length block => length + size block + 1) 0

/-- The place among `blocks` of the one that holds a position; a position after the end is in the last one. -/
def placeAmong (size : List Char → Nat) : List (List Char) → Nat → Nat
  | [], _ | [_], _ => 0
  | block :: next :: rest, position =>
    if position ≤ size block then 0 else placeAmong size (next :: rest) (position - (size block + 1)) + 1

/-- A stand-in for a toolkit: blocks end at line feeds only, and positions count characters. -/
def plain : TextKit where
  blocks := Text.splitLines
  plainText := Text.joinLines
  position := startOf List.length
  blockAt := placeAmong List.length

end TextKit

structure Document where
  kit : TextKit
  blocks : List (List Char)

namespace Document

def ofText (kit : TextKit) (text : List Char) : Document := ⟨kit, kit.blocks text⟩

def text (d : Document) : List Char := d.kit.plainText d.blocks

def blockCount (d : Document) : Nat := d.blocks.length

def blockStart (d : Document) (index : Nat) : Nat := d.kit.position d.blocks index

def blockAt (d : Document) (position : Nat) : Nat := d.kit.blockAt d.blocks position

theorem text_plain (text : List Char) : (ofText .plain text).text = text := Text.joinLines_splitLines text

end Document

/-- A set of line numbers in ascending order. -/
structure LineSet where
  lines : List Int
  deriving DecidableEq

namespace LineSet

def empty : LineSet := ⟨[]⟩

def ofList (lines : List Int) : LineSet := ⟨lines.eraseDups.mergeSort fun a b => a ≤ b⟩

def contains (s : LineSet) (line : Int) : Bool := s.lines.contains line

end LineSet

end Toolpath
