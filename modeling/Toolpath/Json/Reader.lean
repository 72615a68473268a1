import Toolpath.Decimal.Reading
import Toolpath.Fault
import Toolpath.Json.Value

/-! Reading JSON. Beyond the standard, the words for infinity and for no number stand for reals; an integer with
more digits than an integer may be written with is refused. Control characters in texts and a byte order mark
are not accepted, and what stands too deep is a fault of its own. Each value takes at least one character, so
the length of the text bounds the reading. -/
namespace Toolpath.Json

def isSpace (c : Char) : Bool := c == ' ' || c == '\t' || c == '\n' || c == '\r'

def skipSpace (cs : List Char) : List Char := cs.dropWhile isSpace

def hexValue? (c : Char) : Option Nat :=
  if '0' ≤ c ∧ c ≤ '9' then some (c.toNat - 48)
  else if 'a' ≤ c ∧ c ≤ 'f' then some (c.toNat - 87)
  else if 'A' ≤ c ∧ c ≤ 'F' then some (c.toNat - 55)
  else none

def hexUnit? (a b c d : Char) : Option UInt16 := do
  let a ← hexValue? a
  let b ← hexValue? b
  let c ← hexValue? c
  let d ← hexValue? d
  return UInt16.ofNat (((a * 16 + b) * 16 + c) * 16 + d)

/-- The character that a letter stands for after a backslash. -/
def escaped? (c : Char) : Option Char :=
  match c with
  | '"' => some '"'
  | '\\' => some '\\'
  | '/' => some '/'
  | 'b' => some '\x08'
  | 'f' => some '\x0c'
  | 'n' => some '\n'
  | 'r' => some '\r'
  | 't' => some '\t'
  | _ => none

/-- The units of a text up to its closing quote, and what follows. -/
def readText : List Char → Option (List UInt16 × List Char)
  | [] => none
  | '"' :: rest => some ([], rest)
  | '\\' :: 'u' :: a :: b :: c :: d :: rest => do
    let unit ← hexUnit? a b c d
    let (units, after) ← readText rest
    return (unit :: units, after)
  | '\\' :: c :: rest => do
    let plain ← escaped? c
    let (units, after) ← readText rest
    return (Text.unitsOfChar plain ++ units, after)
  | c :: rest =>
    if c.toNat < 0x20 ∨ c = '\\' then none
    else do
      let (units, after) ← readText rest
      return (Text.unitsOfChar c ++ units, after)

/-- Digits without a zero in front of others. -/
def readWhole? (cs : List Char) : Option (List Char × List Char) :=
  match cs with
  | '0' :: rest => some (['0'], rest)
  | _ =>
    let digits := cs.takeWhile Char.isDigit
    if digits = [] then none else some (digits, cs.dropWhile Char.isDigit)

/-- A point with digits after it, or nothing. -/
def readFraction (cs : List Char) : List Char × List Char :=
  match cs with
  | '.' :: rest =>
    let digits := rest.takeWhile Char.isDigit
    if digits = [] then ([], cs) else ('.' :: digits, rest.dropWhile Char.isDigit)
  | _ => ([], cs)

/-- An exponent with at least one digit, or nothing. -/
def readExponent (cs : List Char) : List Char × List Char :=
  match cs with
  | c :: rest =>
    if c = 'e' ∨ c = 'E' then
      let (sign, rest) := match rest with
        | '+' :: more => (['+'], more)
        | '-' :: more => (['-'], more)
        | more => ([], more)
      let digits := rest.takeWhile Char.isDigit
      if digits = [] then ([], cs) else ('e' :: sign ++ digits, rest.dropWhile Char.isDigit)
    else ([], cs)
  | [] => ([], cs)

def readNumber (cs : List Char) : Option (Json × List Char) := do
  let (sign, rest) := match cs with
    | '-' :: more => (['-'], more)
    | more => ([], more)
  let (whole, rest) ← readWhole? rest
  let (fraction, rest) := readFraction rest
  let (exponent, rest) := readExponent rest
  if fraction = [] ∧ exponent = [] then
    let n ← Decimal.int? (sign ++ whole)
    return (.int n, rest)
  else
    let x ← Decimal.float? (sign ++ whole ++ fraction ++ exponent)
    return (.real x, rest)

def readWord (cs : List Char) : Option (Json × List Char) :=
  let word (name : String) (value : Json) : Option (Json × List Char) :=
    if cs.take name.length == name.toList then some (value, cs.drop name.length) else none
  (word "null" .null).orElse fun _ =>
  (word "true" (.bool true)).orElse fun _ =>
  (word "false" (.bool false)).orElse fun _ =>
  (word "NaN" (.real Binary64.nanValue)).orElse fun _ =>
  (word "Infinity" (.real (Binary64.infiniteValue false))).orElse fun _ =>
  (word "-Infinity" (.real (Binary64.infiniteValue true))).orElse fun _ =>
  readNumber cs

/-- How deep arrays and objects may stand in each other. -/
def depthLimit : Nat := 985

/-- A value read, and what follows it. -/
abbrev Reading (α : Type) := Except Fault (α × List Char)

def malformed {α : Type} : Reading α := .error .unreadableText

def readable {α : Type} : Option (α × List Char) → Reading α
  | some r => .ok r
  | none => malformed

mutual

/-- Reads a value in which `depth` arrays and objects may still be opened. -/
def readValue : Nat → Nat → List Char → Reading Json
  | 0, _, _ => malformed
  | fuel + 1, depth, cs =>
    match cs, depth with
    | '"' :: rest, _ =>
      (readable (readText rest)).map fun (units, after) => (.text (Text.pointsOfUnits units), after)
    | '[' :: _, 0 | '{' :: _, 0 => .error .tooDeep
    | '[' :: rest, depth + 1 =>
      match skipSpace rest with
      | ']' :: after => .ok (.array [], after)
      | more => (readItems fuel depth more).map fun (items, after) => (.array items, after)
    | '{' :: rest, depth + 1 =>
      match skipSpace rest with
      | '}' :: after => .ok (.object [], after)
      | more => (readFields fuel depth [] more).map fun (fields, after) => (.object fields, after)
    | _, _ => readable (readWord cs)

/-- The items of an array from one that must be there. -/
def readItems : Nat → Nat → List Char → Reading (List Json)
  | 0, _, _ => malformed
  | fuel + 1, depth, cs =>
    match readValue fuel depth cs with
    | .error fault => .error fault
    | .ok (item, rest) =>
      match skipSpace rest with
      | ']' :: after => .ok ([item], after)
      | ',' :: more => (readItems fuel depth (skipSpace more)).map fun (items, after) => (item :: items, after)
      | _ => malformed

/-- The fields of an object from one that must be there, put to those before it. -/
def readFields : Nat → Nat → List (List UInt16 × Json) → List Char → Reading (List (List UInt16 × Json))
  | 0, _, _, _ => malformed
  | fuel + 1, depth, fields, cs =>
    match cs with
    | '"' :: rest =>
      match readText rest with
      | none => malformed
      | some (name, rest) =>
        match skipSpace rest with
        | ':' :: rest =>
          match readValue fuel depth (skipSpace rest) with
          | .error fault => .error fault
          | .ok (value, rest) =>
            let fields := put fields name value
            match skipSpace rest with
            | '}' :: after => .ok (fields, after)
            | ',' :: more => readFields fuel depth fields (skipSpace more)
            | _ => malformed
        | _ => malformed
    | _ => malformed

end

def read (cs : List Char) : Except Fault Json :=
  match readValue (cs.length + 1) depthLimit (skipSpace cs) with
  | .ok (value, rest) => if skipSpace rest = [] then .ok value else .error .unreadableText
  | .error fault => .error fault

end Toolpath.Json
