import Toolpath.Gcode.Token
import Toolpath.Motion

/-! A block is what a line with at least one word says: its command numbers in order and at most one value for
each of X, Y and F. The first usable word of a letter counts; a number that is not finite, a negative feed and
a repeated word are reported and leave the block as it is. -/
namespace Toolpath.Gcode

structure Block where
  line : Int
  gCodes : List Float
  x : Option Float
  y : Option Float
  f : Option Float
  tokenCount : Nat

namespace Block

/-- A rapid wins over a linear move on the same line. -/
def kind? (b : Block) : Option MoveKind :=
  if b.gCodes.any (· == 0) then some .rapid
  else if b.gCodes.any (· == 1) then some .linear
  else none

def refuse (t : Token) (message : String) : Diagnostic :=
  ⟨t.line, t.start, t.stop, message, .wording, .warning⟩

def invalidMessage (t : Token) : String := "Invalid number in word: " ++ String.ofList (t.letter ++ t.value)

def negativeMessage (t : Token) : String := "Negative feed rate ignored: F" ++ String.ofList t.value

def repeatedMessage (t : Token) : String := "Repeated " ++ String.ofList t.letter ++ " word ignored"

/-- Fills a field that is still empty. -/
def fill (b : Block) (t : Token) (present : Option Float) (set : Block) : Block × List Diagnostic :=
  match present with
  | none => (set, [])
  | some _ => (b, [refuse t (repeatedMessage t)])

/-- A word whose number reads as `value`. -/
def takeValue (b : Block) (t : Token) (value : Float) : Block × List Diagnostic :=
  match t.kind with
  | .g => ({ b with gCodes := b.gCodes ++ [value] }, [])
  | .x => b.fill t b.x { b with x := some value }
  | .y => b.fill t b.y { b with y := some value }
  | .f =>
    if value < 0 then (b, [refuse t (negativeMessage t)])
    else b.fill t b.f { b with f := some value }
  | .other | .comment => (b, [])

def take (b : Block) (t : Token) : Block × List Diagnostic :=
  match t.kind with
  | .other | .comment => (b, [])
  | .g | .x | .y | .f =>
    match t.number? with
    | none => (b, [refuse t (invalidMessage t)])
    | some value => b.takeValue t value

def takeAll (b : Block) : List Token → Block × List Diagnostic
  | [] => (b, [])
  | t :: rest =>
    let (b, first) := b.take t
    let (b, others) := b.takeAll rest
    (b, first ++ others)

def bothMessage : String := "Both G0 and G1 on one line; treated as G0"

def bothDiagnostic? (b : Block) : List Diagnostic :=
  if b.kind? = some .rapid ∧ b.gCodes.any (· == 1) = true then [.ofLine b.line bothMessage .wording] else []

/-- The block of a line, none if the line has no words, with all reports about the line. -/
def ofLine (number : Int) (line : List Char) : Option Block × List Diagnostic :=
  let ts := tokens number line
  let found := tokenDiagnostics number line
  if ts.all (·.kind == .comment) then (none, found)
  else
    let (b, refused) := takeAll ⟨number, [], none, none, none, ts.length⟩ ts
    (some b, found ++ refused ++ b.bothDiagnostic?)

end Block

end Toolpath.Gcode
