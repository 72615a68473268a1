import Mathlib
import Toolpath.Text.Blank

/-! Trimming. What is trimmed off a text is blanks on either side of it, and whatever blanks are put
there make no difference. A text that begins and ends with something to see stays as it is. -/
namespace Toolpath.Text

theorem trimStart_ends (line : List Char) : ∃ after : List Char,
    trimStart line = trim line ++ after ∧ ∀ c ∈ after, isBlank c = true := by
  refine ⟨((trimStart line).reverse.takeWhile isBlank).reverse, ?_, fun c member =>
    List.mem_takeWhile_imp (List.mem_reverse.mp member)⟩
  rw [trim, trimEnd, ← List.reverse_append, List.takeWhile_append_dropWhile, List.reverse_reverse]

theorem trim_around (line : List Char) : ∃ before after : List Char,
    line = before ++ trim line ++ after ∧ before.length = leadingBlanks line ∧
      (∀ c ∈ before, isBlank c = true) ∧ ∀ c ∈ after, isBlank c = true := by
  obtain ⟨after, ends, blanks⟩ := trimStart_ends line
  refine ⟨line.takeWhile isBlank, after, ?_, rfl, fun c => List.mem_takeWhile_imp, blanks⟩
  rw [List.append_assoc, ← ends]
  exact List.takeWhile_append_dropWhile.symm

theorem trim_blanks_append {before : List Char} (blanks : ∀ c ∈ before, isBlank c = true)
    (text : List Char) : trim (before ++ text) = trim text := by
  rw [trim, trimStart, List.dropWhile_append_of_pos blanks]
  rfl

theorem trim_append_blanks {after : List Char} (blanks : ∀ c ∈ after, isBlank c = true)
    (text : List Char) : trim (text ++ after) = trim text := by
  have ends (front : List Char) : trimEnd (front ++ after) = trimEnd front := by
    rw [trimEnd, List.reverse_append,
      List.dropWhile_append_of_pos fun c member => blanks c (List.mem_reverse.mp member)]
    rfl
  rw [trim, trimStart, List.dropWhile_append]
  split
  · rename_i nothing
    rw [trim, trimStart, List.isEmpty_iff.mp nothing, List.dropWhile_eq_nil_iff.mpr blanks]
  · exact ends _

theorem leadingBlanks_append (c : Char) {line : List Char} (visible : trim line ≠ []) :
    leadingBlanks (line ++ [c]) = leadingBlanks line := by
  -- a line with something to see has its leading blanks before that
  have parted := congrArg List.length (List.takeWhile_append_dropWhile (p := isBlank) (l := line))
  have stops : (line.takeWhile isBlank).length ≠ line.length := by
    intro all
    rw [List.length_append, all] at parted
    have nothing : line.dropWhile isBlank = [] := List.eq_nil_of_length_eq_zero (by omega)
    exact visible (by rw [trim, trimStart, nothing]; rfl)
  rw [leadingBlanks, List.takeWhile_append, if_neg stops, leadingBlanks]

theorem trim_eq {c last : Char} {rest front : List Char} (starts : isBlank c = false)
    (stops : isBlank last = false) (whole : c :: rest = front ++ [last]) :
    trim (c :: rest) = c :: rest := by
  have first : trimStart (c :: rest) = c :: rest := by simp [trimStart, starts]
  rw [trim, first, whole]
  simp [trimEnd, stops]

theorem trim_visible {text : List Char} (visible : ∀ c ∈ text, isBlank c = false) :
    trim text = text := by
  have stays {cs : List Char} (all : ∀ c ∈ cs, isBlank c = false) : cs.dropWhile isBlank = cs := by
    cases cs with
    | nil => rfl
    | cons c cs => exact List.dropWhile_cons_of_neg (Bool.eq_false_iff.mp (all c List.mem_cons_self))
  rw [trim, trimStart, stays visible, trimEnd,
    stays fun c member => visible c (List.mem_reverse.mp member), List.reverse_reverse]

theorem trim_cons {c : Char} (visible : isBlank c = false) (rest : List Char) :
    ∃ rest', trim (c :: rest) = c :: rest' := by
  have first : trimStart (c :: rest) = c :: rest := by simp [trimStart, visible]
  rw [trim, first, trimEnd, List.reverse_cons, List.dropWhile_append]
  split
  · exact ⟨[], by simp [visible]⟩
  · exact ⟨(rest.reverse.dropWhile isBlank).reverse, by simp⟩

end Toolpath.Text
