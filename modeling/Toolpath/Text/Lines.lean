/-! Texts as lines. Only the line feed separates lines, so a text has one line more than line feeds. -/
namespace Toolpath.Text

/-- The first line so far is put in front of what follows. -/
def splitLines : List Char → List (List Char)
  | [] => [[]]
  | c :: rest =>
    match splitLines rest with
    | [] => [[c]]
    | line :: lines => if c = '\n' then [] :: line :: lines else (c :: line) :: lines

def joinLines : List (List Char) → List Char
  | [] => []
  | [line] => line
  | line :: next :: rest => line ++ '\n' :: joinLines (next :: rest)

theorem splitLines_ne_nil (cs : List Char) : splitLines cs ≠ [] := by
  cases cs with
  | nil => simp [splitLines]
  | cons c rest =>
    cases h : splitLines rest with
    | nil => simp [splitLines, h]
    | cons line lines => by_cases hc : c = '\n' <;> simp [splitLines, h, hc]

theorem joinLines_splitLines (cs : List Char) : joinLines (splitLines cs) = cs := by
  induction cs with
  | nil => rfl
  | cons c rest ih =>
    cases h : splitLines rest with
    | nil => exact absurd h (splitLines_ne_nil rest)
    | cons line lines =>
      rw [h] at ih
      by_cases hc : c = '\n'
      · simp [splitLines, h, hc, joinLines, ih]
      · cases lines with
        | nil => simpa [splitLines, h, hc, joinLines] using ih
        | cons next others =>
          have shape : splitLines (c :: rest) = (c :: line) :: next :: others := by simp [splitLines, h, hc]
          rw [shape, ← ih]
          simp [joinLines]

end Toolpath.Text
