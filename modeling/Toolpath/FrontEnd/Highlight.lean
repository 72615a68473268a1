import Toolpath.Gcode.Token

/-! Colours for a line of a program. Words are the lexer's own, and comments come last where they lie over words.
Places are counted in characters, and handed on to whatever formats the line. -/
namespace Toolpath

structure TextLook where
  color : String
  bold : Bool
  italic : Bool
  deriving DecidableEq

/-- A look for `count` places from `start` on. -/
structure TextSpan where
  start : Nat
  count : Nat
  look : TextLook
  deriving DecidableEq

/-- How a block of text is formatted. A block has a number of units, and formats lie over these. -/
structure Formatter (β : Type) where
  /-- A text without any format. -/
  fresh (text : List Char) : β
  size (block : β) : Nat
  setFormat (block : β) (span : TextSpan) : β
  formatAt (block : β) (unit : Nat) : Option TextLook

namespace Highlight
open Gcode

def rapidLook : TextLook := ⟨"#ffaa00", true, false⟩
def linearLook : TextLook := ⟨"#00ff88", true, false⟩
def commentLook : TextLook := ⟨"#6c757d", false, true⟩

def letterLook? (letter : Char) : Option TextLook :=
  if letter = 'G' then some ⟨"#74c0fc", false, false⟩
  else if letter = 'M' then some ⟨"#ff8cc8", false, false⟩
  else if letter = 'X' then some ⟨"#ff9999", false, false⟩
  else if letter = 'Y' then some ⟨"#99ff99", false, false⟩
  else if letter = 'Z' then some ⟨"#9999ff", false, false⟩
  else if letter = 'F' then some ⟨"#ffff99", false, false⟩
  else none

/-- The words that ask for a movement stand out from the other G words. -/
def wordLook? (w : Word) : Option TextLook :=
  match w.letter, Decimal.float? w.number with
  | 'G', some value => if value == 0 then some rapidLook else if value == 1 then some linearLook else letterLook? 'G'
  | letter, _ => letterLook? letter

/-- Words from left to right, each with its position, whatever stands between them. -/
def words (position : Nat) (cs : List Char) : List (Nat × Word) :=
  match cs with
  | [] => []
  | c :: rest =>
    match h : Word.scan? (c :: rest) with
    | some (w, after) => (position, w) :: words (position + w.text.length) after
    | none => words (position + 1) rest
termination_by cs.length
decreasing_by
  · exact Word.scan?_shorter h
  · simp

def wordSpans (code : List Char) : List TextSpan :=
  (words 0 code).filterMap fun (start, w) => (wordLook? w).map fun look => ⟨start, w.text.length, look⟩

theorem scanComment_le (rest : List Char) : (Piece.scanComment rest).2.length ≤ rest.length := by
  have shorter := (List.dropWhile_sublist (· != ')') (l := rest)).length_le
  unfold Piece.scanComment
  split
  · simp
  · rename_i after h
    rw [h, List.length_cons] at shorter
    exact Nat.le_of_succ_le shorter

def commentSpans (position : Nat) (cs : List Char) : List TextSpan :=
  match cs with
  | [] => []
  | c :: rest =>
    if c = '(' then
      let length := (Piece.scanComment rest).1.length
      ⟨position, length, commentLook⟩ :: commentSpans (position + length) (Piece.scanComment rest).2
    else commentSpans (position + 1) rest
termination_by cs.length
decreasing_by
  · have := scanComment_le rest
    simp only [List.length_cons]
    omega
  · simp

/-- The looks of a line in the order in which they are laid over it. -/
def spans (line : List Char) : List TextSpan :=
  if isCommentLine (Text.trimStart line) then [⟨0, line.length, commentLook⟩]
  else
    let code := line.takeWhile (· != ';')
    let trailing := line.length - code.length
    (if trailing = 0 then [] else [⟨code.length, trailing, commentLook⟩]) ++ wordSpans code ++ commentSpans 0 code

def highlight {β : Type} (f : Formatter β) (line : List Char) : β := (spans line).foldl f.setFormat (f.fresh line)

end Highlight

end Toolpath
