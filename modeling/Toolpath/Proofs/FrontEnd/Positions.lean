import Mathlib
import Toolpath.FrontEnd.Editor
import Toolpath.Proofs.Gcode.Concatenation
import Toolpath.Proofs.Text.Utf16

/-! Positions in the blocks of a document and in the text that they hold. A block and the position at its end take
up the positions from its start to that of the next block, and a line of a text takes up the units from its start
to that of the next line. The two agree if no block holds a character that the text has as a line feed. -/
namespace Toolpath

/-- What starts from zero and ends behind `p` passes it in one of its steps. -/
theorem exists_step {f : Nat → Nat} (zero : f 0 = 0) {n p : Nat} (below : p < f n) :
    ∃ i < n, f i ≤ p ∧ p < f (i + 1) := by
  induction n with
  | zero => omega
  | succ n ih =>
    rcases Nat.lt_or_ge p (f n) with earlier | later
    · obtain ⟨i, less, around⟩ := ih earlier
      exact ⟨i, Nat.lt_succ_of_lt less, around⟩
    · exact ⟨n, Nat.lt_succ_self n, later, below⟩

namespace Text

theorem splitLines_unbroken {line : List Char} (unbroken : '\n' ∉ line) :
    splitLines line = [line] := by
  have alone := @Gcode.splitLines_append line unbroken [] [] [] rfl
  rwa [List.append_nil] at alone

theorem splitLines_broken {line : List Char} (unbroken : '\n' ∉ line) (rest : List Char) :
    splitLines (line ++ '\n' :: rest) = line :: splitLines rest := by
  rw [Gcode.splitLines_newline, splitLines_unbroken unbroken, List.singleton_append]

theorem unbroken_of_mem_splitLines {text line : List Char} (member : line ∈ splitLines text) :
    '\n' ∉ line := by
  induction text generalizing line with
  | nil =>
    rw [List.mem_singleton.mp member]
    exact List.not_mem_nil
  | cons c rest ih =>
    obtain ⟨first, others, lines⟩ := List.exists_cons_of_ne_nil (splitLines_ne_nil rest)
    simp only [lines, splitLines] at ih member
    split at member
    · rcases List.mem_cons.mp member with rfl | member
      · exact List.not_mem_nil
      · exact ih member
    · rename_i other
      rcases List.mem_cons.mp member with rfl | member
      · exact List.not_mem_cons_of_ne_of_not_mem (Ne.symm other) (ih List.mem_cons_self)
      · exact ih (List.mem_cons_of_mem _ member)

/-- A text is a line, or a line and what follows its line feed. -/
theorem lines_induction {motive : List Char → Prop} (last : ∀ line, '\n' ∉ line → motive line)
    (broken : ∀ line rest, '\n' ∉ line → motive rest → motive (line ++ '\n' :: rest))
    (text : List Char) : motive text := by
  have joined (lines : List (List Char)) (nonempty : lines ≠ [])
      (unbroken : ∀ line ∈ lines, '\n' ∉ line) : motive (joinLines lines) := by
    induction lines with
    | nil => exact absurd rfl nonempty
    | cons line rest ih =>
      rw [List.forall_mem_cons] at unbroken
      cases rest with
      | nil => exact last line unbroken.1
      | cons next others => exact broken line _ unbroken.1 (ih (List.cons_ne_nil _ _) unbroken.2)
  have whole := joined (splitLines text) (splitLines_ne_nil text)
    fun _ member => unbroken_of_mem_splitLines member
  rwa [joinLines_splitLines] at whole

theorem count_take_unbroken {line : List Char} (unbroken : '\n' ∉ line) (position : Nat) :
    (line.take position).count '\n' = 0 :=
  List.count_eq_zero.mpr fun member => unbroken (List.mem_of_mem_take member)

/-- The line that holds the character at a place, counted from one; a line feed is on the line
that it ends. -/
def lineNumber (text : List Char) (place : Nat) : Int := (text.take place).count '\n' + 1

/-- Every unit of a text is one of a character's. -/
theorem exists_hasUnit {text : List Char} {unit : Nat} (inside : unit < unitCount text) :
    ∃ place, HasUnit text place unit := by
  have whole : unitCount (text.take text.length) = unitCount text := by rw [List.take_length]
  obtain ⟨place, -, around⟩ := exists_step (f := fun place => unitCount (text.take place)) rfl (whole ▸ inside)
  exact ⟨place, around⟩

theorem unitCount_take_le (cs : List Char) (n : Nat) : unitCount (cs.take n) ≤ unitCount cs := by
  conv_rhs => rw [← List.take_append_drop n cs, unitCount_append]
  exact Nat.le_add_right _ _

theorem unitCount_take_mono (cs : List Char) {m n : Nat} (le : m ≤ n) :
    unitCount (cs.take m) ≤ unitCount (cs.take n) := by
  have inner := unitCount_take_le (cs.take n) m
  rwa [List.take_take, Nat.min_eq_left le] at inner

end Text

namespace TextKit
open Text (unitCount)

section
variable {size : List Char → Nat} {blocks : List (List Char)} {block : List Char} {index : Nat}

theorem startOf_eq (size : List Char → Nat) (blocks : List (List Char)) (index : Nat) :
    startOf size blocks index = ((blocks.take index).map fun block => size block + 1).sum := by
  have from_start (blocks : List (List Char)) (start : Nat) :
      blocks.foldl (fun length block => length + size block + 1) start =
        start + (blocks.map fun block => size block + 1).sum := by
    induction blocks generalizing start with
    | nil => rfl
    | cons block rest ih =>
      rw [List.foldl_cons, ih, List.map_cons, List.sum_cons]
      omega
  rw [startOf, from_start, Nat.zero_add]

theorem startOf_cons (block : List Char) (rest : List (List Char)) (index : Nat) :
    startOf size (block :: rest) (index + 1) = size block + 1 + startOf size rest index := by
  rw [startOf_eq, startOf_eq, List.take_succ_cons, List.map_cons, List.sum_cons]

theorem startOf_succ (here : blocks[index]? = some block) :
    startOf size blocks (index + 1) = startOf size blocks index + size block + 1 := by
  rw [startOf_eq, startOf_eq, List.take_add_one, here, List.map_append, List.sum_append]
  rfl

theorem startOf_mono {i j : Nat} (le : i ≤ j) : startOf size blocks i ≤ startOf size blocks j := by
  rw [startOf_eq, startOf_eq]
  exact ((List.take_sublist_take_left le).map _).sum_le_sum fun _ _ => Nat.zero_le _

theorem startOf_beyond (beyond : blocks.length ≤ index) :
    startOf size blocks index = startOf size blocks blocks.length := by
  rw [startOf_eq, startOf_eq, List.take_of_length_le beyond, List.take_length]

/-- A position up to the end of a block is found there. -/
theorem placeAmong_eq (here : blocks[index]? = some block) {position : Nat}
    (low : startOf size blocks index ≤ position) (high : position ≤ startOf size blocks index + size block) :
    placeAmong size blocks position = index := by
  induction blocks generalizing index position with
  | nil => cases here
  | cons first rest ih =>
    cases index with
    | zero =>
      obtain rfl := Option.some.inj here
      have within : position ≤ size first := high.trans (Nat.zero_add _).le
      cases rest with
      | nil => rfl
      | cons next others => exact if_pos within
    | succ index =>
      rw [startOf_cons] at low high
      have later : rest[index]? = some block := here
      cases rest with
      | nil => cases later
      | cons next others =>
        rw [placeAmong, if_neg (by omega), ih later (by omega) (by omega)]

end

/-- Every line counts with a line feed, which the last one lacks. -/
theorem unitCount_joinLines {lines : List (List Char)} (nonempty : lines ≠ []) :
    unitCount (Text.joinLines lines) + 1 = startOf unitCount lines lines.length := by
  induction lines with
  | nil => exact absurd rfl nonempty
  | cons line rest ih =>
    rw [List.length_cons, startOf_cons]
    cases rest with
    | nil => rfl
    | cons next others =>
      have newline : (Text.unitsOfChar '\n').length = 1 := rfl
      rw [← ih (List.cons_ne_nil _ _), Text.joinLines, Text.unitCount_append, Text.unitCount_cons, newline]
      omega

/-- The line of a character takes up the units from its start to that of the next line. -/
theorem startOf_lineNumber {text : List Char} {place unit : Nat} (own : Text.HasUnit text place unit) :
    startOf unitCount (Text.splitLines text) ((text.take place).count '\n') ≤ unit ∧
      unit < startOf unitCount (Text.splitLines text) ((text.take place).count '\n' + 1) := by
  induction text using Text.lines_induction generalizing place unit with
  | last line unbroken =>
    have within := own.2.trans_le (Text.unitCount_take_le line _)
    rw [Text.splitLines_unbroken unbroken, Text.count_take_unbroken unbroken, startOf_cons]
    exact ⟨Nat.zero_le unit, by omega⟩
  | broken line rest unbroken ih =>
    rw [Text.splitLines_broken unbroken]
    have newline : (Text.unitsOfChar '\n').length = 1 := rfl
    obtain ⟨low, high⟩ := own
    rcases Nat.lt_or_ge line.length place with later | within
    · obtain ⟨p, rfl⟩ : ∃ p, place = line.length + (p + 1) := ⟨place - line.length - 1, by omega⟩
      have further : line.length + (p + 1) + 1 = line.length + (p + 1 + 1) := by omega
      rw [List.take_length_add_append, List.take_succ_cons, Text.unitCount_append, Text.unitCount_cons] at low
      rw [further, List.take_length_add_append, List.take_succ_cons, Text.unitCount_append,
        Text.unitCount_cons] at high
      obtain ⟨after, before⟩ := @ih p (unit - (unitCount line + 1)) ⟨by omega, by omega⟩
      rw [List.take_length_add_append, List.take_succ_cons, List.count_append, List.count_eq_zero.mpr unbroken,
        List.count_cons_self, Nat.zero_add, startOf_cons, startOf_cons]
      omega
    · have ends := high.trans_le (Text.unitCount_take_mono _ (Nat.succ_le_succ within))
      rw [Nat.succ_eq_add_one, List.take_length_add_append, List.take_succ_cons, List.take_zero,
        Text.unitCount_append, Text.unitCount_cons, newline] at ends
      rw [List.take_append_of_le_length within, Text.count_take_unbroken unbroken, startOf_cons]
      exact ⟨Nat.zero_le unit, ends.trans_le (Nat.le_add_right _ _)⟩

/-! What is asked of a toolkit. -/

/-- Where a text that is set is broken into blocks. -/
def blockEnds : List Char :=
  ['\n', '\r', Char.ofNat 0x2029, Char.ofNat 0xFDD0, Char.ofNat 0xFDD1]

def lineSeparator : Char := Char.ofNat 0x2028

def noBreakSpace : Char := Char.ofNat 0xA0

/-- A character of a block as the text has it that the blocks hold. -/
def plainChar (c : Char) : Char := if c = lineSeparator then '\n' else if c = noBreakSpace then ' ' else c

/-- The behaviour that editing relies on. Positions count units, the end of a block is one of its positions, and the
text that the blocks hold has a line feed between two of them and for every line separator. -/
structure Lawful (kit : TextKit) : Prop where
  blocks_nonempty : ∀ text, kit.blocks text ≠ []
  blocks_unbroken : ∀ text, ∀ block ∈ kit.blocks text, ∀ c ∈ block, c ∉ blockEnds
  plainText_eq : ∀ text, kit.plainText (kit.blocks text) =
    Text.joinLines ((kit.blocks text).map fun block => block.map plainChar)
  position_zero : ∀ text, kit.position (kit.blocks text) 0 = 0
  position_succ : ∀ text index block, (kit.blocks text)[index]? = some block →
    index + 1 < (kit.blocks text).length →
    kit.position (kit.blocks text) (index + 1) = kit.position (kit.blocks text) index + unitCount block + 1
  blockAt_eq : ∀ text index block position, (kit.blocks text)[index]? = some block →
    kit.position (kit.blocks text) index ≤ position →
    position ≤ kit.position (kit.blocks text) index + unitCount block →
    kit.blockAt (kit.blocks text) position = index

theorem newline_of_plainChar {c : Char} (newline : plainChar c = '\n') : c = '\n' ∨ c = lineSeparator := by
  unfold plainChar at newline
  split_ifs at newline with separator space
  · exact .inr separator
  · exact absurd newline (by decide)
  · exact .inl newline

theorem length_unitsOfChar_plain (c : Char) :
    (Text.unitsOfChar (plainChar c)).length = (Text.unitsOfChar c).length := by
  unfold plainChar
  split_ifs with separator space
  · rw [separator]
    rfl
  · rw [space]
    rfl
  · rfl

theorem unitCount_plain (block : List Char) : unitCount (block.map plainChar) = unitCount block := by
  induction block with
  | nil => rfl
  | cons c rest ih => rw [List.map_cons, Text.unitCount_cons, Text.unitCount_cons, length_unitsOfChar_plain, ih]

theorem startOf_plain (blocks : List (List Char)) (index : Nat) :
    startOf unitCount (blocks.map fun block => block.map plainChar) index = startOf unitCount blocks index := by
  rw [startOf_eq, startOf_eq, List.map_take.symm, List.map_map]
  simp only [Function.comp_def, unitCount_plain]

/-- A text in blocks; a carriage return and a line feed together end one block. -/
def splitBlocks : List Char → List (List Char)
  | [] => [[]]
  | '\r' :: '\n' :: rest => [] :: splitBlocks rest
  | c :: rest =>
    if c ∈ blockEnds then [] :: splitBlocks rest
    else match splitBlocks rest with
      | [] => [[c]]
      | block :: blocks => (c :: block) :: blocks

/-- A toolkit of this behaviour. -/
def units : TextKit where
  blocks := splitBlocks
  plainText blocks := Text.joinLines (blocks.map fun block => block.map plainChar)
  position := startOf unitCount
  blockAt := placeAmong unitCount

theorem splitBlocks_ne_nil (text : List Char) : splitBlocks text ≠ [] := by
  fun_cases splitBlocks text <;> exact List.cons_ne_nil _ _

theorem splitBlocks_unbroken {text block : List Char} (member : block ∈ splitBlocks text) :
    ∀ c ∈ block, c ∉ blockEnds := by
  fun_induction splitBlocks text generalizing block with
  | case1 =>
    rw [List.mem_singleton.mp member]
    exact List.forall_mem_nil _
  | case2 rest ih | case3 c rest _ _ ih =>
    rcases List.mem_cons.mp member with rfl | later
    · exact List.forall_mem_nil _
    · exact ih later
  | case4 c rest _ _ none => exact absurd none (splitBlocks_ne_nil rest)
  | case5 c rest _ inside first blocks shape ih =>
    rw [shape] at ih
    rcases List.mem_cons.mp member with rfl | later
    · exact List.forall_mem_cons.mpr ⟨inside, ih List.mem_cons_self⟩
    · exact ih (List.mem_cons_of_mem _ later)

theorem units_lawful : units.Lawful where
  blocks_nonempty := splitBlocks_ne_nil
  blocks_unbroken _ _ := splitBlocks_unbroken
  plainText_eq _ := rfl
  position_zero _ := rfl
  position_succ _ _ _ here _ := startOf_succ here
  blockAt_eq _ _ _ _ here low high := placeAmong_eq here low high

end TextKit

namespace Document
open Text (unitCount lineNumber HasUnit)

/-- The blocks are those of some text, in a toolkit that behaves. -/
structure Made (d : Document) : Prop where
  lawful : d.kit.Lawful
  blocks : ∃ text, d.blocks = d.kit.blocks text

/-- A position of a block: one from its start up to its end. -/
def Holds (d : Document) (index position : Nat) : Prop := ∃ block, d.blocks[index]? = some block ∧
  d.blockStart index ≤ position ∧ position ≤ d.blockStart index + unitCount block

variable {d : Document} {index position : Nat} {block : List Char}

theorem ofText_made {kit : TextKit} (lawful : kit.Lawful) (text : List Char) : (ofText kit text).Made :=
  ⟨lawful, text, rfl⟩

theorem holds_start (inside : index < d.blocks.length) : d.Holds index (d.blockStart index) :=
  ⟨_, List.getElem?_eq_getElem inside, le_rfl, Nat.le_add_right _ _⟩

namespace Made

theorem nonempty (made : d.Made) : d.blocks ≠ [] := by
  obtain ⟨lawful, text, blocks⟩ := made
  rw [blocks]
  exact lawful.blocks_nonempty text

theorem lines_nonempty (made : d.Made) : (d.blocks.map fun block => block.map TextKit.plainChar) ≠ [] :=
  List.map_eq_nil_iff.not.mpr made.nonempty

theorem unbroken (made : d.Made) : ∀ block ∈ d.blocks, ∀ c ∈ block, c ∉ TextKit.blockEnds := by
  obtain ⟨lawful, text, blocks⟩ := made
  rw [blocks]
  exact lawful.blocks_unbroken text

theorem text_eq (made : d.Made) :
    d.text = Text.joinLines (d.blocks.map fun block => block.map TextKit.plainChar) := by
  obtain ⟨lawful, text, blocks⟩ := made
  rw [Document.text, blocks]
  exact lawful.plainText_eq text

theorem blockStart_zero (made : d.Made) : d.blockStart 0 = 0 := by
  obtain ⟨lawful, text, blocks⟩ := made
  rw [blockStart, blocks]
  exact lawful.position_zero text

theorem blockStart_succ (made : d.Made) (here : d.blocks[index]? = some block)
    (further : index + 1 < d.blocks.length) :
    d.blockStart (index + 1) = d.blockStart index + unitCount block + 1 := by
  obtain ⟨lawful, text, blocks⟩ := made
  rw [blockStart, blockStart, blocks]
  exact lawful.position_succ text index block (blocks ▸ here) (blocks ▸ further)

theorem blockAt_eq (made : d.Made) (holds : d.Holds index position) : d.blockAt position = index := by
  obtain ⟨lawful, text, blocks⟩ := made
  obtain ⟨block, here, low, high⟩ := holds
  rw [blockStart, blocks] at low high
  rw [blockAt, blocks]
  exact lawful.blockAt_eq text index block position (blocks ▸ here) low high

theorem blockStart_eq (made : d.Made) (inside : index < d.blocks.length) :
    d.blockStart index = TextKit.startOf unitCount d.blocks index := by
  induction index with
  | zero => exact made.blockStart_zero
  | succ index ih =>
    have before : index < d.blocks.length := Nat.lt_of_succ_lt inside
    have here := List.getElem?_eq_getElem before
    rw [made.blockStart_succ here inside, TextKit.startOf_succ here, ih before]

theorem holds_iff (made : d.Made) : d.Holds index position ↔ index < d.blocks.length ∧
    TextKit.startOf unitCount d.blocks index ≤ position ∧
      position < TextKit.startOf unitCount d.blocks (index + 1) := by
  constructor
  · rintro ⟨block, here, low, high⟩
    have inside := (List.getElem?_eq_some_iff.mp here).1
    rw [made.blockStart_eq inside] at low high
    rw [TextKit.startOf_succ here]
    exact ⟨inside, low, by omega⟩
  · rintro ⟨inside, low, high⟩
    have here := List.getElem?_eq_getElem inside
    rw [TextKit.startOf_succ here] at high
    exact ⟨_, here, made.blockStart_eq inside ▸ low, made.blockStart_eq inside ▸ by omega⟩

/-- Later positions lie in later blocks. -/
theorem le_of_holds (made : d.Made) {other later : Nat} (holds : d.Holds index position)
    (further : d.Holds other later) (le : position ≤ later) : index ≤ other := by
  obtain ⟨_, low, _⟩ := made.holds_iff.mp holds
  obtain ⟨_, _, high⟩ := made.holds_iff.mp further
  by_contra before
  have starts : TextKit.startOf unitCount d.blocks (other + 1) ≤ TextKit.startOf unitCount d.blocks index :=
    TextKit.startOf_mono (by omega)
  omega

theorem holds_unique (made : d.Made) {other : Nat} (holds : d.Holds index position)
    (also : d.Holds other position) : index = other :=
  (made.blockAt_eq holds).symm.trans (made.blockAt_eq also)

/-- Up to the last one every position is one of a block's. -/
theorem exists_holds (made : d.Made) (inside : position ≤ unitCount d.text) :
    ∃ index, d.Holds index position := by
  have ends : position < TextKit.startOf unitCount d.blocks d.blocks.length := by
    have size := TextKit.unitCount_joinLines made.lines_nonempty
    rw [← made.text_eq, List.length_map, TextKit.startOf_plain] at size
    omega
  obtain ⟨index, block, around⟩ := exists_step (f := TextKit.startOf unitCount d.blocks) rfl ends
  exact ⟨index, made.holds_iff.mpr ⟨block, around⟩⟩

/-- Without line separators in the blocks, these are the lines of the text. -/
theorem splitLines_text (made : d.Made) (plain : ∀ block ∈ d.blocks, TextKit.lineSeparator ∉ block) :
    Text.splitLines d.text = d.blocks.map fun block => block.map TextKit.plainChar := by
  rw [made.text_eq]
  refine Gcode.splitLines_joinLines made.lines_nonempty ?_
  intro line member newline
  obtain ⟨block, own, rfl⟩ := List.mem_map.mp member
  obtain ⟨c, inside, broken⟩ := List.mem_map.mp newline
  rcases TextKit.newline_of_plainChar broken with rfl | rfl
  · exact made.unbroken block own _ inside List.mem_cons_self
  · exact plain block own inside

/-- Then a block has the position of a character if the character is on its line. -/
theorem holds_iff_lineNumber (made : d.Made) (plain : ∀ block ∈ d.blocks, TextKit.lineSeparator ∉ block)
    {place unit : Nat} (own : HasUnit d.text place unit) :
    d.Holds index unit ↔ lineNumber d.text place = index + 1 := by
  obtain ⟨low, high⟩ := TextKit.startOf_lineNumber own
  rw [made.splitLines_text plain, TextKit.startOf_plain] at low
  rw [made.splitLines_text plain, TextKit.startOf_plain] at high
  have inside : (d.text.take place).count '\n' < d.blocks.length := by
    by_contra beyond
    have here : d.blocks.length ≤ (d.text.take place).count '\n' := Nat.not_lt.mp beyond
    rw [TextKit.startOf_beyond here] at low
    rw [TextKit.startOf_beyond (here.trans (Nat.le_succ _))] at high
    omega
  have holds := made.holds_iff.mpr ⟨inside, low, high⟩
  rw [lineNumber]
  constructor
  · intro also
    rw [made.holds_unique also holds]
  · intro same
    have index : (d.text.take place).count '\n' = index := by omega
    exact index ▸ holds

end Made

end Document

end Toolpath
