/-! Bytes as text in UTF-8. A sequence that begins well and breaks off is one fault, up to the byte that breaks
it; a byte that begins nothing is a fault of its own. `decode?` refuses any fault, `decodeReplacing` puts one
replacement character in the place of each. -/
namespace Toolpath.Text

/-- How many bytes follow a leading byte, and the range of the first of them; the others lie in 0x80 to 0xBF. -/
def followers? (lead : Nat) : Option (Nat × Nat × Nat) :=
  if 0xC2 ≤ lead ∧ lead ≤ 0xDF then some (1, 0x80, 0xBF)
  else if lead = 0xE0 then some (2, 0xA0, 0xBF)
  else if lead = 0xED then some (2, 0x80, 0x9F)
  else if 0xE1 ≤ lead ∧ lead ≤ 0xEF then some (2, 0x80, 0xBF)
  else if lead = 0xF0 then some (3, 0x90, 0xBF)
  else if lead = 0xF4 then some (3, 0x80, 0x8F)
  else if 0xF1 ≤ lead ∧ lead ≤ 0xF3 then some (3, 0x80, 0xBF)
  else none

/-- The bits that a leading byte contributes. -/
def leadBits (lead : Nat) : Nat :=
  if lead < 0xE0 then lead % 32 else if lead < 0xF0 then lead % 16 else lead % 8

/-- Where the decoder stands: between characters, or within one with its bits so far, the number of bytes still
owed, and the range that the next one must lie in. -/
inductive Utf8State where
  | between
  | within (bits owed low high : Nat)

/-- Begins a character; `none` in the list is a fault. -/
def beginCharacter (byte : Nat) : List (Option Char) × Utf8State :=
  if byte < 0x80 then ([some (Char.ofNat byte)], .between)
  else match followers? byte with
    | some (owed, low, high) => ([], .within (leadBits byte) owed low high)
    | none => ([none], .between)

def takeByte (state : Utf8State) (byte : Nat) : List (Option Char) × Utf8State :=
  match state with
  | .between => beginCharacter byte
  | .within bits owed low high =>
    if low ≤ byte ∧ byte ≤ high then
      let bits := bits * 64 + byte % 64
      if owed ≤ 1 then ([some (Char.ofNat bits)], .between) else ([], .within bits (owed - 1) 0x80 0xBF)
    else
      let (out, state) := beginCharacter byte
      (none :: out, state)

def decodeFrom (state : Utf8State) : List UInt8 → List (Option Char)
  | [] => match state with
    | .between => []
    | .within .. => [none]
  | byte :: rest =>
    let (out, state) := takeByte state byte.toNat
    out ++ decodeFrom state rest

def decode? (bytes : List UInt8) : Option (List Char) := (decodeFrom .between bytes).mapM id

def decodeReplacing (bytes : List UInt8) : List Char :=
  (decodeFrom .between bytes).map fun c? => c?.getD (Char.ofNat 0xFFFD)

/-- A fault of encoding: the place of its first byte, how many bytes it has, and what is wrong with them. -/
structure Utf8Fault where
  start : Nat
  count : Nat
  reason : String
  deriving DecidableEq

/-- The first fault of the bytes from a place on; a character that they go on with began at `start`. -/
def faultFrom (state : Utf8State) (start place : Nat) : List UInt8 → Option Utf8Fault
  | [] => match state with
    | .between => none
    | .within .. => some ⟨start, place - start, "unexpected end of data"⟩
  | byte :: rest =>
    let (out, next) := takeByte state byte.toNat
    match state, out.contains none with
    | .between, true => some ⟨place, 1, "invalid start byte"⟩
    | .within .., true => some ⟨start, place - start, "invalid continuation byte"⟩
    | .between, false => faultFrom next place (place + 1) rest
    | .within .., false => faultFrom next start (place + 1) rest

def firstFault? (bytes : List UInt8) : Option Utf8Fault := faultFrom .between 0 0 bytes

def encode (cs : List Char) : List UInt8 := cs.flatMap String.utf8EncodeChar

/-- A carriage return, alone or with a line feed after it, is read as a line feed. -/
def unifyNewlines : List Char → List Char
  | [] => []
  | '\r' :: '\n' :: rest => '\n' :: unifyNewlines rest
  | '\r' :: rest => '\n' :: unifyNewlines rest
  | c :: rest => c :: unifyNewlines rest

end Toolpath.Text
