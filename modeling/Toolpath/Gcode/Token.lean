import Toolpath.Decimal.Reading
import Toolpath.Diagnostic
import Toolpath.Gcode.Piece

/-! Tokens of a line: its words and comments with their places. Blanks give none, and text that is neither
word nor comment is reported and skipped. A line whose first character is a parenthesis, a semicolon or a
percent sign is one comment; elsewhere a semicolon begins a comment that runs to the end. -/
namespace Toolpath.Gcode

inductive TokenKind where
  | g
  | x
  | y
  | f
  | other
  | comment
  deriving DecidableEq

def TokenKind.label : TokenKind → String
  | .g => "G"
  | .x => "X"
  | .y => "Y"
  | .f => "F"
  | .other => "WORD"
  | .comment => "COMMENT"

def TokenKind.ofLetter (letter : Char) : TokenKind :=
  if letter = 'G' then .g
  else if letter = 'X' then .x
  else if letter = 'Y' then .y
  else if letter = 'F' then .f
  else .other

/-- The value of a word is the text of its number; a comment has its text and no letter. -/
structure Token where
  kind : TokenKind
  value : List Char
  line : Int
  start : Nat
  stop : Nat
  letter : List Char
  deriving DecidableEq

namespace Token

def text (t : Token) : String := t.kind.label ++ ":" ++ String.ofList t.value

def number? (t : Token) : Option Float := Decimal.finite? t.value

def ofPiece? (line : Int) (start : Nat) (p : Piece) : Option Token :=
  let stop := start + p.length
  match p with
  | .word w => some ⟨.ofLetter w.letter, w.number, line, start, stop, [w.letter]⟩
  | .comment text _ => some ⟨.comment, text, line, start, stop, []⟩
  | .blank _ | .junk _ => none

end Token

def junkMessage (text : List Char) : String := "Ignored unrecognized text: '" ++ String.ofList text ++ "'"

def unclosedMessage : String := "Unclosed parenthesis in comment"

def Piece.diagnostic? (line : Int) (start : Nat) (p : Piece) : Option Diagnostic :=
  match p with
  | .junk text => some ⟨line, start, ↑(start + p.length), junkMessage text, .wording, .warning⟩
  | .comment _ false => some ⟨line, start, ↑(start + p.length), unclosedMessage, .wording, .warning⟩
  | .comment _ true | .blank _ | .word _ => none

/-- Each piece with the position at which it starts, the first one at `start`. -/
def Piece.placed (start : Nat) : List Piece → List (Nat × Piece)
  | [] => []
  | p :: rest => (start, p) :: Piece.placed (start + p.length) rest

/-- Whether a line without its leading blanks is one comment. -/
def isCommentLine : List Char → Bool
  | '(' :: _ | ';' :: _ | '%' :: _ => true
  | _ => false

/-- A line taken apart: the trimmed text, where it starts, and its parts around the first semicolon. -/
structure LineParts where
  start : Nat
  stripped : List Char
  code : List Char
  trailing : Option (List Char)

def LineParts.ofLine (line : List Char) : LineParts :=
  let stripped := Text.trim line
  { start := Text.leadingBlanks line
    stripped
    code := stripped.takeWhile (· != ';')
    trailing := match stripped.dropWhile (· != ';') with
      | [] => none
      | _ :: rest => some rest }

namespace LineParts

def stop (parts : LineParts) : Nat := parts.start + parts.stripped.length

def pieces (parts : LineParts) : List (Nat × Piece) := Piece.placed parts.start (Piece.split parts.code)

def trailingToken? (number : Int) (parts : LineParts) : Option Token :=
  parts.trailing.map fun text =>
    ⟨.comment, Text.trim text, number, parts.start + parts.code.length, parts.stop, []⟩

end LineParts

def tokens (number : Int) (line : List Char) : List Token :=
  let parts := LineParts.ofLine line
  if parts.stripped = [] then []
  else if isCommentLine parts.stripped then
    [⟨.comment, parts.stripped, number, parts.start, parts.stop, []⟩]
  else
    parts.pieces.filterMap (fun (start, p) => Token.ofPiece? number start p) ++
      (parts.trailingToken? number).toList

def tokenDiagnostics (number : Int) (line : List Char) : List Diagnostic :=
  let parts := LineParts.ofLine line
  if parts.stripped = [] ∨ isCommentLine parts.stripped then []
  else parts.pieces.filterMap fun (start, p) => p.diagnostic? number start

end Toolpath.Gcode
