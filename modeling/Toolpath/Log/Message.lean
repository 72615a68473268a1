import Toolpath.Config.Setting
import Toolpath.Decimal.Notation
import Toolpath.Text.Quoted

/-! Messages with placeholders. A placeholder begins with a percent sign and ends with the letter of its kind;
between them may stand a name in parentheses, flags, a width, a precision and a length, which counts for nothing.
A width or precision may itself be taken from the arguments. Reading a message never fails: what is wrong with a
placeholder shows when its turn comes to be filled. -/
namespace Toolpath.Log

/-- A number in a placeholder: as it is written, or to be taken from the arguments. -/
inductive Extent where
  | written (n : Nat)
  | argument
  deriving DecidableEq

structure Placeholder where
  /-- A name is missing inside if its parenthesis is never closed. -/
  name : Option (Option (List Char))
  flags : List Char
  width : Option Extent
  precision : Option Extent
  /-- Missing if the message ends too soon. -/
  kind : Option Char
  deriving DecidableEq

inductive Part where
  | letter (c : Char)
  | placeholder (p : Placeholder)
  deriving DecidableEq

namespace Placeholder

/-- What stands before the parenthesis that closes as many as are open, and what follows it. -/
def untilClosed (depth : Nat) : List Char → Option (List Char × List Char)
  | [] => none
  | ')' :: rest =>
    if depth = 0 then some ([], rest) else (untilClosed (depth - 1) rest).map fun (name, after) => (')' :: name, after)
  | c :: rest =>
    (untilClosed (if c = '(' then depth + 1 else depth) rest).map fun (name, after) => (c :: name, after)

def readName : List Char → Option (Option (List Char)) × List Char
  | '(' :: rest => match untilClosed 0 rest with
    | some (name, after) => (some (some name), after)
    | none => (some none, [])
  | cs => (none, cs)

def isFlag (c : Char) : Bool := c == '-' || c == '+' || c == ' ' || c == '#' || c == '0'

def readExtent : List Char → Option Extent × List Char
  | '*' :: rest => (some .argument, rest)
  | cs =>
    let digits := cs.takeWhile Char.isDigit
    (if digits = [] then none else some (.written (Decimal.digitsValue digits)), cs.dropWhile Char.isDigit)

/-- A point alone asks for a precision of zero. -/
def readPrecision : List Char → Option Extent × List Char
  | '.' :: rest => ((readExtent rest).1.orElse fun _ => some (.written 0), (readExtent rest).2)
  | cs => (none, cs)

def skipLength : List Char → List Char
  | c :: rest => if c = 'h' ∨ c = 'l' ∨ c = 'L' then rest else c :: rest
  | [] => []

/-- The placeholder whose percent sign stands before `cs`, and how many characters of `cs` belong to it. -/
def read (cs : List Char) : Placeholder × Nat :=
  let (name, afterName) := readName cs
  let (width, afterWidth) := readExtent (afterName.dropWhile isFlag)
  let (precision, afterPrecision) := readPrecision afterWidth
  let rest := skipLength afterPrecision
  (⟨name, afterName.takeWhile isFlag, width, precision, rest.head?⟩, cs.length - rest.tail.length)

end Placeholder

/-- The parts of a message from the one after `skipped` characters on. Two percent signs stand for one. -/
def messageParts : Nat → List Char → List Part
  | _, [] => []
  | skipped + 1, _ :: rest => messageParts skipped rest
  | 0, c :: rest =>
    if c = '%' ∧ rest.head? = some '%' then .letter '%' :: messageParts 1 rest
    else if c = '%' then
      let (p, length) := Placeholder.read rest
      .placeholder p :: messageParts length rest
    else .letter c :: messageParts 0 rest

/-- How a placeholder's text is laid out. -/
structure Layout where
  left : Bool
  plus : Bool
  blank : Bool
  alternate : Bool
  zero : Bool
  width : Nat
  precision : Option Nat

namespace Layout

/-- A negative width asks for text at the left. -/
def ofFlags (flags : List Char) (width : Option Int) (precision : Option Int) : Layout :=
  { left := flags.contains '-' || (width.getD 0) < 0
    plus := flags.contains '+'
    blank := flags.contains ' '
    alternate := flags.contains '#'
    zero := flags.contains '0'
    width := (width.getD 0).natAbs
    precision := precision.map Int.toNat }

def spaces (layout : Layout) (length : Nat) : List Char := List.replicate (layout.width - length) ' '

def text (layout : Layout) (cs : List Char) : List Char :=
  if layout.left then cs ++ layout.spaces cs.length else layout.spaces cs.length ++ cs

def signText (layout : Layout) (negative : Bool) : List Char :=
  if negative then ['-'] else if layout.plus then ['+'] else if layout.blank then [' '] else []

/-- Zeros that fill the width stand after the sign and the mark of the base. -/
def number (layout : Layout) (negative : Bool) (mark digits : List Char) : List Char :=
  let head := layout.signText negative ++ mark
  if layout.zero && !layout.left then
    head ++ List.replicate (layout.width - (head.length + digits.length)) '0' ++ digits
  else layout.text (head ++ digits)

/-- An integer with at least as many digits as the precision asks for. -/
def integer (layout : Layout) (base : Nat) (mark : List Char) (n : Int) : List Char :=
  let digits := Nat.toDigits base n.natAbs
  let zeros := List.replicate (layout.precision.getD 0 - digits.length) '0'
  layout.number (n < 0) (if layout.alternate then mark else []) (zeros ++ digits)

/-- A real by its magnitude's text; what is no number has no sign. -/
def real (layout : Layout) (x : Float) (magnitude : Nat → List Char) : List Char :=
  match Binary64.ofFloat x with
  | .nan => layout.number false [] "nan".toList
  | .infinite negative => layout.number negative [] "inf".toList
  | .finite negative units => layout.number negative [] (magnitude units)

end Layout

/-- Puts a point after the first `length` characters. -/
def pointAfter (length : Nat) (cs : List Char) : List Char := cs.take length ++ '.' :: cs.drop length

def fixedMagnitude (alternate : Bool) (places units : Nat) : List Char :=
  let text := Decimal.withPlaces places (Decimal.scaledMagnitude places units)
  if alternate && places == 0 then text ++ ['.'] else text

def scientificMagnitude (alternate : Bool) (places units : Nat) : List Char :=
  let text := Decimal.scientificMagnitude places units
  if alternate && places == 0 then pointAfter 1 text else text

/-- Of the short form the alternate keeps the point and the zeros at the end. -/
def shortMagnitude (alternate : Bool) (count units : Nat) : List Char :=
  let count := max count 1
  if !alternate then Decimal.generalMagnitude count units
  else if units = 0 then fixedMagnitude true (count - 1) 0
  else
    let leading := (Decimal.significant count units).leading
    if -4 ≤ leading ∧ leading < count then fixedMagnitude true (count - 1 - leading).toNat units
    else scientificMagnitude true (count - 1) units

/-- An integer for a placeholder that takes reals only to cut them. -/
def cutArgument (value : Json) : Except Fault Int :=
  match value with
  | .bool b => .ok (if b then 1 else 0)
  | .int n => .ok n
  | .real x => Binary64.truncate x
  | .null | .text _ | .array _ | .object _ => .error .unsuitableValue

def wholeArgument (value : Json) : Except Fault Int :=
  match value with
  | .bool b => .ok (if b then 1 else 0)
  | .int n => .ok n
  | .real _ | .null | .text _ | .array _ | .object _ => .error .unsuitableValue

/-- A character by itself or by its number. -/
def characterArgument (value : Json) : Except Fault Char :=
  match value with
  | .text points => match Text.ofPoints points with
    | [c] => .ok c
    | _ => .error .unsuitableValue
  | value => do
    let n ← wholeArgument value
    if n < 0 ∨ 0x110000 ≤ n then throw .tooLarge
    else return Char.ofNat n.toNat

namespace Layout

/-- The text of a value for a kind of placeholder. -/
def fill (layout : Layout) (kind : Char) (value : Json) : Except Fault (List Char) :=
  let shortened (cs : List Char) := layout.text ((layout.precision.map cs.take).getD cs)
  let places := layout.precision.getD 6
  match kind with
  | 's' => .ok (shortened value.shown)
  | 'r' => .ok (shortened value.quoted)
  | 'a' => .ok (shortened (Text.asciiEscaped value.quoted))
  | 'd' | 'i' | 'u' => (cutArgument value).map (layout.integer 10 [])
  | 'o' => (wholeArgument value).map (layout.integer 8 ['0', 'o'])
  | 'x' => (wholeArgument value).map (layout.integer 16 ['0', 'x'])
  | 'X' => (wholeArgument value).map fun n => (layout.integer 16 ['0', 'x'] n).map Char.toUpper
  | 'e' | 'E' | 'f' | 'F' | 'g' | 'G' =>
    let magnitude := match kind.toLower with
      | 'e' => scientificMagnitude layout.alternate places
      | 'f' => fixedMagnitude layout.alternate places
      | _ => shortMagnitude layout.alternate places
    (Setting.measure value).map fun x =>
      let text := layout.real x magnitude
      if kind.isUpper then text.map Char.toUpper else text
  | 'c' => (characterArgument value).map fun c => layout.text [c]
  | _ => .error .unreadableText

end Layout

/-- A width or precision, within its limit, and the arguments left. -/
def Extent.take? (limit : Nat) (e : Option Extent) (arguments : List Json) :
    Except Fault (Option Int × List Json) :=
  match e, arguments with
  | none, _ => .ok (none, arguments)
  | some (.written n), _ => if n ≤ limit then .ok (some n, arguments) else .error .unreadableText
  | some .argument, [] => .error .unsuitableValue
  | some .argument, value :: rest =>
    (wholeArgument value).bind fun n =>
      if n.natAbs ≤ limit then .ok (some n, rest) else .error .tooLarge

/-- The arguments of a placeholder: those left, or the one that its name stands for. -/
def Placeholder.supply (p : Placeholder) (named : Option (List (List UInt16 × Json))) (arguments : List Json) :
    Except Fault (List Json) :=
  match p.name, named with
  | none, _ => .ok arguments
  | some _, none => .error .unsuitableValue
  | some none, some _ => .error .unreadableText
  | some (some name), some fields => match fields.lookup (Text.toUnits name) with
    | some value => .ok [value]
    | none => .error .unknownName

/-- Fills the placeholders in order. All arguments have to be used unless they go by name. -/
def fillParts (named : Option (List (List UInt16 × Json))) (arguments : List Json) :
    List Part → Except Fault (List Char)
  | [] => if arguments.isEmpty || named.isSome then .ok [] else .error .unsuitableValue
  | .letter c :: parts => (fillParts named arguments parts).map (c :: ·)
  | .placeholder p :: parts => do
    let arguments ← p.supply named arguments
    let (width, arguments) ← Extent.take? (2 ^ 63 - 1) p.width arguments
    let (precision, arguments) ← Extent.take? (2 ^ 31 - 1) p.precision arguments
    match p.kind, arguments with
    | none, _ => throw .unreadableText
    | some _, [] => throw .unsuitableValue
    | some kind, value :: rest =>
      let text ← (Layout.ofFlags p.flags width precision).fill kind value
      return text ++ (← fillParts named rest parts)

/-- A message with its arguments. A single argument that is an object with fields gives its fields by name. -/
def fillIn (message : List Char) (arguments : List Json) : Except Fault (List Char) :=
  let named := match arguments with
    | [.object (field :: fields)] => some (field :: fields)
    | _ => none
  fillParts named arguments (messageParts 0 message)

end Toolpath.Log
