import Toolpath.Gcode.Word

/-! The pieces of a line of code before its trailing comment: blanks, comments in parentheses, words, and runs
of characters that begin no word. Splitting loses nothing: the texts of the pieces make up the line. -/
namespace Toolpath.Gcode

inductive Piece where
  | blank (c : Char)
  | comment (text : List Char) (closed : Bool)
  | word (w : Word)
  | junk (text : List Char)
  deriving DecidableEq

namespace Piece

def text : Piece → List Char
  | .blank c => [c]
  | .comment text closed => '(' :: text ++ if closed then [')'] else []
  | .word w => w.text
  | .junk text => text

def length (p : Piece) : Nat := p.text.length

/-- Whether a run of junk ends here: at a blank, a parenthesis or a word. -/
def endsJunk (cs : List Char) : Bool :=
  match cs with
  | [] => true
  | c :: _ => Text.isBlank c || c == '(' || (Word.scan? cs).isSome

def splitJunk : List Char → List Char × List Char
  | [] => ([], [])
  | c :: rest =>
    if endsJunk (c :: rest) then ([], c :: rest)
    else
      let (run, after) := splitJunk rest
      (c :: run, after)

/-- A comment runs to the first closing parenthesis, or to the end if there is none. -/
def scanComment (rest : List Char) : Piece × List Char :=
  match rest.dropWhile (· != ')') with
  | [] => (.comment rest false, [])
  | _ :: after => (.comment (rest.takeWhile (· != ')')) true, after)

/-- The first piece of a text that begins with `c`, and what follows it. -/
def scan (c : Char) (rest : List Char) : Piece × List Char :=
  if Text.isBlank c then (.blank c, rest)
  else if c = '(' then scanComment rest
  else match Word.scan? (c :: rest) with
    | some (w, after) => (.word w, after)
    | none =>
      let (run, after) := splitJunk rest
      (.junk (c :: run), after)

theorem splitJunk_append (cs : List Char) : (splitJunk cs).1 ++ (splitJunk cs).2 = cs := by
  induction cs with
  | nil => rfl
  | cons c rest ih => by_cases h : endsJunk (c :: rest) = true <;> simp [splitJunk, h, ih]

theorem scanComment_append (rest : List Char) :
    (scanComment rest).1.text ++ (scanComment rest).2 = '(' :: rest := by
  have whole := List.takeWhile_append_dropWhile (p := (· != ')')) (l := rest)
  unfold scanComment
  split
  · simp [text]
  · rename_i d after h
    have close : d = ')' := by
      have := List.head?_dropWhile_not (p := (· != ')')) (l := rest)
      simp [h] at this
      exact this
    rw [h, close] at whole
    simp [text, whole]

/-- Nothing is lost: the piece and the rest are the text. -/
theorem scan_append (c : Char) (rest : List Char) : (scan c rest).1.text ++ (scan c rest).2 = c :: rest := by
  unfold scan
  split
  · rfl
  · split
    · rename_i h
      rw [h]
      exact scanComment_append rest
    · split
      · rename_i w after h
        exact (Word.scan?_append h).symm
      · have := splitJunk_append rest
        simp [text, this]

theorem text_ne_nil (p : Piece) (h : ∀ run, p = .junk run → run ≠ []) : p.text ≠ [] := by
  cases p with
  | blank c => simp [text]
  | comment t closed => simp [text]
  | word w => simp [text, Word.text]
  | junk run => exact h run rfl

theorem scan_text_ne_nil (c : Char) (rest : List Char) : (scan c rest).1.text ≠ [] := by
  apply text_ne_nil
  intro run h
  unfold scan at h
  split at h
  · cases h
  · split at h
    · unfold scanComment at h
      split at h <;> cases h
    · split at h
      · cases h
      · cases h
        simp

theorem scan_shorter (c : Char) (rest : List Char) : (scan c rest).2.length < (c :: rest).length := by
  have whole := congrArg List.length (scan_append c rest)
  have positive := List.length_pos_iff.mpr (scan_text_ne_nil c rest)
  rw [List.length_append] at whole
  omega

def split : List Char → List Piece
  | [] => []
  | c :: rest => (scan c rest).1 :: split (scan c rest).2
termination_by cs => cs.length
decreasing_by exact scan_shorter c rest

theorem flatMap_text_split (cs : List Char) : (split cs).flatMap text = cs := by
  fun_induction split cs with
  | case1 => rfl
  | case2 c rest ih => rw [List.flatMap_cons, ih, scan_append]

end Piece

end Toolpath.Gcode
