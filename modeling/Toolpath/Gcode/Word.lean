import Toolpath.Text.Blank
import Toolpath.Text.Digit

/-! Words: a letter directly followed by a number. The number may have a sign, and digits with at most one
point, which may stand before or after all digits; it has no exponent. `Word.scan?` takes the longest word at
the front of a text, and whatever it takes is the word's own text. -/
namespace Toolpath.Gcode

/-- The capital form of a letter that can begin a word. Besides the letters of ASCII these are the four other
letters that share a small or capital form with one of them. -/
def capitalLetter? (c : Char) : Option Char :=
  if c.isUpper then some c
  else if c.isLower then some c.toUpper
  else if c.toNat = 0x131 then some 'I'
  else if c.toNat = 0x17F then some 'S'
  else if c.toNat = 0x130 ∨ c.toNat = 0x212A then some c
  else none

def scanUnsigned? (cs : List Char) : Option (List Char × List Char) :=
  let whole := cs.takeWhile Text.isDigit
  match cs.dropWhile Text.isDigit with
  | '.' :: more =>
    let part := more.takeWhile Text.isDigit
    if whole = [] ∧ part = [] then none else some (whole ++ '.' :: part, more.dropWhile Text.isDigit)
  | rest => if whole = [] then none else some (whole, rest)

def scanNumber? : List Char → Option (List Char × List Char)
  | '+' :: cs => (scanUnsigned? cs).map fun (number, rest) => ('+' :: number, rest)
  | '-' :: cs => (scanUnsigned? cs).map fun (number, rest) => ('-' :: number, rest)
  | cs => scanUnsigned? cs

/-- The letter as it is spelt and in its capital form, and the text of the number. -/
structure Word where
  spelt : Char
  letter : Char
  number : List Char
  deriving DecidableEq

namespace Word

def text (w : Word) : List Char := w.spelt :: w.number

def scan? : List Char → Option (Word × List Char)
  | [] => none
  | c :: cs =>
    (capitalLetter? c).bind fun letter =>
      (scanNumber? cs).map fun (number, rest) => (⟨c, letter, number⟩, rest)

end Word

theorem scanUnsigned?_append {cs number rest : List Char} (h : scanUnsigned? cs = some (number, rest)) :
    cs = number ++ rest := by
  have whole := List.takeWhile_append_dropWhile (p := Text.isDigit) (l := cs)
  simp only [scanUnsigned?] at h
  split at h
  · rename_i more hd
    split at h
    · simp at h
    · have part := List.takeWhile_append_dropWhile (p := Text.isDigit) (l := more)
      simp only [Option.some.injEq, Prod.mk.injEq] at h
      rw [hd] at whole
      rw [← h.1, ← h.2, List.append_assoc, List.cons_append, part, whole]
  · split at h
    · simp at h
    · simp only [Option.some.injEq, Prod.mk.injEq] at h
      rw [← h.1, ← h.2, whole]

theorem scanNumber?_append {cs number rest : List Char} (h : scanNumber? cs = some (number, rest)) :
    cs = number ++ rest := by
  unfold scanNumber? at h
  split at h
  · obtain ⟨⟨n, r⟩, hn, he⟩ := Option.map_eq_some_iff.mp h
    simp only [Prod.mk.injEq] at he
    rw [scanUnsigned?_append hn, ← he.1, ← he.2, List.cons_append]
  · obtain ⟨⟨n, r⟩, hn, he⟩ := Option.map_eq_some_iff.mp h
    simp only [Prod.mk.injEq] at he
    rw [scanUnsigned?_append hn, ← he.1, ← he.2, List.cons_append]
  · exact scanUnsigned?_append h

theorem Word.scan?_append {cs rest : List Char} {w : Word} (h : Word.scan? cs = some (w, rest)) :
    cs = w.text ++ rest := by
  cases cs with
  | nil => simp [Word.scan?] at h
  | cons c cs =>
    obtain ⟨letter, _, hl⟩ := Option.bind_eq_some_iff.mp h
    obtain ⟨⟨number, r⟩, hn, he⟩ := Option.map_eq_some_iff.mp hl
    simp only [Prod.mk.injEq] at he
    rw [scanNumber?_append hn, ← he.1, ← he.2]
    rfl

theorem Word.scan?_shorter {cs rest : List Char} {w : Word} (h : Word.scan? cs = some (w, rest)) :
    rest.length < cs.length := by
  rw [Word.scan?_append h]
  simp only [Word.text, List.cons_append, List.length_cons, List.length_append]
  omega

end Toolpath.Gcode
