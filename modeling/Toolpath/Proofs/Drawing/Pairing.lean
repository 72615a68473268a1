import Mathlib
import Toolpath.Proofs.Drawing.Written
import Toolpath.Proofs.Gcode.Reading

/-! Lines into tags. Between its tags a text may hold blank lines and lines that are no code, any
number of them. Pairing finds the tags again, with the places of their values, whatever the values
are, and reports each line that is no code. A code at the end of the text that has no value is
reported as well, and takes nothing from the tags before it. -/
namespace Toolpath.Drawing
open Decimal

/-- Blanks to put around what a line says. None of them ends the line. -/
structure Margins where
  before : List Char
  after : List Char
  blank : ∀ c ∈ before ++ after, Text.isBlank c = true ∧ c ≠ '\n'

namespace Margins
variable (m : Margins)

def around (text : List Char) : List Char := m.before ++ text ++ m.after

theorem trim_around (text : List Char) : Text.trim (m.around text) = Text.trim text := by
  obtain ⟨before, after⟩ := List.forall_mem_append.mp m.blank
  rw [around, Text.trim_append_blanks fun c member => (after c member).1,
    Text.trim_blanks_append fun c member => (before c member).1]

theorem around_unbroken {text : List Char} (unbroken : '\n' ∉ text) : '\n' ∉ m.around text := by
  intro broken
  rcases List.mem_append.mp broken with front | after
  · rcases List.mem_append.mp front with before | inside
    · exact (m.blank _ (List.mem_append_left _ before)).2 rfl
    · exact unbroken inside
  · exact (m.blank _ (List.mem_append_right _ after)).2 rfl

end Margins

theorem WrittenTag.short (t : WrittenTag) : (natural t.code.natAbs).length ≤ maxIntegerDigits :=
  short_of_int? t.reads

theorem integer_visible (n : Int) : Text.trim (integer n) = integer n := by
  refine Text.trim_visible fun c member => ?_
  have bounds := isNumeric_bounds (isNumeric_of_mem_integer member)
  exact Gcode.isBlank_of_bounds (by omega) (by omega)

theorem integer_unbroken (n : Int) : '\n' ∉ integer n := fun broken =>
  absurd (isNumeric_of_mem_integer broken) (by decide)

/-- Every code that has no more digits than an integer may have can be written in digits, and every
value on a line behind it, with any blanks around them. -/
theorem exists_rendered {code : Int} (short : (natural code.natAbs).length ≤ maxIntegerDigits)
    {value : List Char} (unbroken : '\n' ∉ value) (codeMargins valueMargins : Margins) :
    ∃ t : WrittenTag, t.lines = [codeMargins.around (integer code), valueMargins.around value] ∧
      t.content = ⟨code, Text.trim value⟩ := by
  have reads : int? (Text.trim (codeMargins.around (integer code))) = some code := by
    rw [codeMargins.trim_around, integer_visible, int?_integer, if_pos short]
  refine ⟨⟨_, _, code, reads, codeMargins.around_unbroken (integer_unbroken code),
    valueMargins.around_unbroken unbroken⟩, rfl, ?_⟩
  rw [WrittenTag.content, valueMargins.trim_around]

/-- What a text of tags is written from. -/
inductive Entry where
  | tag (t : WrittenTag)
  | blank (line : List Char) (empty : Text.trim line = []) (unbroken : '\n' ∉ line)
  /-- A line with something on it that is no code. -/
  | stray (line : List Char) (visible : Text.trim line ≠ [])
    (noCode : int? (Text.trim line) = none) (unbroken : '\n' ∉ line)

namespace Entry

def lines : Entry → List (List Char)
  | .tag t => t.lines
  | .blank line _ _ | .stray line _ _ _ => [line]

/-- The tag of an entry that begins at `line`; its place is the line of its value. -/
def tag? (line : Int) : Entry → Option Tag
  | .tag t => some ⟨t.code, Text.trim t.valueLine, line + 1⟩
  | .blank _ _ _ | .stray _ _ _ _ => none

def report? (line : Int) : Entry → Option Diagnostic
  | .stray text _ _ _ => some (.ofLine line (Tag.codeMessage (Text.trim text)) .format)
  | .tag _ | .blank _ _ _ => none

def allLines (entries : List Entry) : List (List Char) := entries.flatMap lines

/-- The entries with the lines at which they begin, the first one at `line`. -/
def placed (line : Int) : List Entry → List (Int × Entry)
  | [] => []
  | e :: rest => (line, e) :: placed (line + e.lines.length) rest

def tags (line : Int) (entries : List Entry) : List Tag :=
  (placed line entries).filterMap fun (line, e) => e.tag? line

def reports (line : Int) (entries : List Entry) : List Diagnostic :=
  (placed line entries).filterMap fun (line, e) => e.report? line

variable (e : Entry) (entries : List Entry) (line : Int)

theorem allLines_cons : allLines (e :: entries) = e.lines ++ allLines entries := List.flatMap_cons

theorem tags_cons : tags line (e :: entries) =
    (e.tag? line).toList ++ tags (line + e.lines.length) entries := by
  cases e <;> rfl

theorem reports_cons : reports line (e :: entries) =
    (e.report? line).toList ++ reports (line + e.lines.length) entries := by
  cases e <;> rfl

theorem allLines_unbroken : ∀ line ∈ allLines entries, '\n' ∉ line := by
  intro line member
  obtain ⟨e, _, inside⟩ := List.mem_flatMap.mp member
  cases e with
  | tag t =>
    rcases List.mem_pair.mp inside with rfl | rfl
    · exact t.unbroken.1
    · exact t.unbroken.2
  | blank _ _ unbroken | stray _ _ _ unbroken =>
    rw [List.mem_singleton.mp inside]
    exact unbroken

end Entry

theorem WrittenTag.visible (t : WrittenTag) : Text.trim t.codeLine ≠ [] := by
  intro empty
  have reads := t.reads
  rw [empty] at reads
  cases reads

/-- An entry takes its own lines, and the pairing goes on behind them. -/
theorem pair_entry (e : Entry) (line : Int) (rest : List (List Char)) :
    Tag.pair line (e.lines.map Text.trim ++ rest) =
      ((e.tag? line).toList ++ (Tag.pair (line + e.lines.length) rest).1,
        (e.report? line).toList ++ (Tag.pair (line + e.lines.length) rest).2) := by
  cases e with
  | tag t =>
    change Tag.pair line (Text.trim t.codeLine :: Text.trim t.valueLine :: rest) = _
    rw [Tag.pair, t.reads]
    · rfl
    · exact t.visible
  | blank text empty _ =>
    change Tag.pair line (Text.trim text :: rest) = _
    rw [empty, Tag.pair]
    rfl
  | stray text visible noCode _ =>
    change Tag.pair line (Text.trim text :: rest) = _
    rw [Tag.pair, noCode]
    · rfl
    · exact visible

theorem pair_entries (entries : List Entry) (line : Int) (rest : List (List Char)) :
    Tag.pair line ((Entry.allLines entries).map Text.trim ++ rest) =
      (Entry.tags line entries ++ (Tag.pair (line + (Entry.allLines entries).length) rest).1,
        Entry.reports line entries ++ (Tag.pair (line + (Entry.allLines entries).length) rest).2) := by
  induction entries generalizing line with
  | nil => simp [Entry.allLines, Entry.tags, Entry.reports, Entry.placed]
  | cons e entries ih =>
    have behind : line + (e.lines ++ Entry.allLines entries).length =
        line + e.lines.length + (Entry.allLines entries).length := by
      rw [List.length_append]
      push_cast
      omega
    rw [Entry.allLines_cons, behind, List.map_append, List.append_assoc, pair_entry, ih,
      Entry.tags_cons, Entry.reports_cons, List.append_assoc, List.append_assoc]

/-- The tags of a text are found again, and what is reported is its lines that are no code. -/
theorem ofText_entries (entries : List Entry) :
    Tag.ofText (Text.joinLines (Entry.allLines entries)) =
      (Entry.tags 1 entries, Entry.reports 1 entries) := by
  have paired := pair_entries entries 1 []
  rw [Tag.pair, List.append_nil, List.append_nil, List.append_nil] at paired
  rw [Tag.ofText]
  by_cases empty : Entry.allLines entries = []
  · rw [empty] at paired ⊢
    exact paired
  · rw [Gcode.splitLines_joinLines empty (Entry.allLines_unbroken entries)]
    exact paired

/-- A text that ends with a code has the same tags, and one report more. -/
theorem ofText_unfinished (entries : List Entry) {codeLine : List Char} {code : Int}
    (reads : int? (Text.trim codeLine) = some code) (unbroken : '\n' ∉ codeLine) :
    Tag.ofText (Text.joinLines (Entry.allLines entries ++ [codeLine])) =
      (Entry.tags 1 entries, Entry.reports 1 entries ++
        [.ofLine (1 + (Entry.allLines entries).length) (Tag.valueMessage code) .format]) := by
  have visible : Text.trim codeLine ≠ [] := by
    intro empty
    rw [empty] at reads
    cases reads
  have last (line : Int) : Tag.pair line [Text.trim codeLine] =
      ([], [.ofLine line (Tag.valueMessage code) .format]) := by
    rw [Tag.pair, reads]
    exact visible
  have whole : ∀ line ∈ Entry.allLines entries ++ [codeLine], '\n' ∉ line :=
    List.forall_mem_append.mpr
      ⟨Entry.allLines_unbroken entries, List.forall_mem_singleton.mpr unbroken⟩
  rw [Tag.ofText, Gcode.splitLines_joinLines (by simp) whole, List.map_append,
    List.map_singleton, pair_entries, last, List.append_nil]

/-- A text that is written from tags, whatever their values, with blank lines and lines that are no
code among them, has these tags, each at the line of its value, and one report for each of those
lines, at that line. With one more code at its end it has the same tags and one report more, at the
line of the code. A code in digits and a value on the next line, with any blanks around them, are a
tag exactly if the code has no more digits than an integer may have. -/
theorem ofText_finds_tags (entries : List Entry) :
    Tag.ofText (Text.joinLines (Entry.allLines entries)) =
        (Entry.tags 1 entries, Entry.reports 1 entries) ∧
      (∀ codeLine code, '\n' ∉ codeLine → int? (Text.trim codeLine) = some code →
        Tag.ofText (Text.joinLines (Entry.allLines entries ++ [codeLine])) =
          (Entry.tags 1 entries, Entry.reports 1 entries ++
            [.ofLine (1 + (Entry.allLines entries).length) (Tag.valueMessage code) .format])) ∧
      ∀ (code : Int) (value : List Char) (codeMargins valueMargins : Margins), '\n' ∉ value →
        ((∃ t : WrittenTag,
            t.lines = [codeMargins.around (integer code), valueMargins.around value] ∧
              t.content = ⟨code, Text.trim value⟩) ↔
          (natural code.natAbs).length ≤ maxIntegerDigits) := by
  refine ⟨ofText_entries entries, ?_, ?_⟩
  · intro codeLine code unbroken reads
    exact ofText_unfinished entries reads unbroken
  · intro code value codeMargins valueMargins unbroken
    constructor
    · rintro ⟨t, -, content⟩
      obtain rfl : t.code = code := congrArg Content.code content
      exact t.short
    · intro short
      exact exists_rendered short unbroken codeMargins valueMargins

/-- The line of a longer code is as good as any other line that is no code. -/
theorem ofText_overlong {code : Int} (long : maxIntegerDigits < (natural code.natAbs).length) :
    Tag.ofText (integer code ++ "\nLINE".toList) =
      ([], [.ofLine 1 (Tag.codeMessage (integer code)) .format,
        .ofLine 2 (Tag.codeMessage "LINE".toList) .format]) := by
  have noCode : int? (Text.trim (integer code)) = none := by
    rw [integer_visible, int?_integer, if_neg (by omega)]
  have visible : Text.trim (integer code) ≠ [] := by
    rw [integer_visible, integer_eq]
    cases decide (code < 0)
    · exact natural_ne_nil _
    · exact List.cons_ne_nil _ _
  have found := ofText_entries [.stray _ visible noCode (integer_unbroken code),
    .stray "LINE".toList (by decide) (by decide) (by decide)]
  change _ = ([], [Diagnostic.ofLine 1 (Tag.codeMessage (Text.trim (integer code))) .format, _]) at found
  rwa [integer_visible] at found

/-- With one digit too many. -/
theorem overlong_code_lost : let code : Int := 10 ^ maxIntegerDigits
    (Tag.ofText (integer code ++ "\nLINE".toList)).1 = [] ∧
      (Tag.ofText (integer code ++ "\nLINE".toList)).2.length = 2 := by
  intro code
  rw [ofText_overlong (Decimal.lt_length_pow (by decide))]
  exact ⟨rfl, rfl⟩

/-- The value on the last line but one is no code, though it could be read as one. -/
example : Tag.ofText " 0 \n LINE\nlost\n\n8\n 0\n62".toList =
    ([⟨0, "LINE".toList, 2⟩, ⟨8, "0".toList, 6⟩],
      [.ofLine 3 (Tag.codeMessage "lost".toList) .format,
        .ofLine 7 (Tag.valueMessage 62) .format]) := by
  decide

end Toolpath.Drawing
