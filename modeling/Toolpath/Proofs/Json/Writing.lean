import Mathlib
import Toolpath.Json.Printer
import Toolpath.Proofs.Json.Reading
import Toolpath.Proofs.Text.Utf16

/-! What is written is a text of the grammar that holds the value written, in a line or in a block, as long
as its reals are finite, its integers short, no halves in its texts join, the names in each object are
different and the nesting is not too deep. So it is read as that value. A block that is written piece by
piece is then written as a whole. -/
namespace Toolpath.Json
open Decimal (Literal natural maxIntegerDigits)

/-- A value that can be written and read, in which so many arrays and objects stand in each other. -/
inductive Writable : Nat → Json → Prop
  | null {depth : Nat} : Writable depth .null
  | bool {depth : Nat} {b : Bool} : Writable depth (.bool b)
  | int {depth : Nat} {n : Int} (short : (natural n.natAbs).length ≤ maxIntegerDigits) :
    Writable depth (.int n)
  | real {depth : Nat} {x : Float} (finite : Binary64.isFinite x = true) : Writable depth (.real x)
  | text {depth : Nat} {points : List Text.CodePoint} (apart : Text.Apart points) : Writable depth (.text points)
  | array {depth : Nat} {items : List Json} (each : ∀ v ∈ items, Writable depth v) :
    Writable (depth + 1) (.array items)
  | object {depth : Nat} {fields : List (List UInt16 × Json)} (distinct : (fields.map Prod.fst).Nodup)
      (each : ∀ field ∈ fields, Writable depth field.2) : Writable (depth + 1) (.object fields)

variable {depth : Nat} {v : Json} {layout : Layout}

/-! Texts. -/

theorem hexValue?_hexDigit : ∀ n < 16, hexValue? (hexDigit n) = some n := by
  decide

theorem unitsOfChar_unit {c : Char} {u : UInt16} (same : c.toNat = u.toNat) : Text.unitsOfChar c = [u] := by
  rw [Text.unitsOfChar, Text.pointOfChar, same, Text.unitsOfPoint_unit]

theorem letter_spells {c meant : Char} {u : UInt16} (stands : escaped? c = some meant)
    (same : u.toNat = meant.toNat) : SpellsPiece [u] ['\\', c] := by
  rw [← unitsOfChar_unit same.symm]
  exact .letter stands

theorem plain_spells {u : UInt16} (visible : 0x20 ≤ u.toNat) (ascii : u.toNat < 0x7F)
    (unquoted : u.toNat ≠ 0x22) (unescaped : u.toNat ≠ 0x5C) : SpellsPiece [u] [Char.ofNat u.toNat] := by
  have valid : u.toNat.isValidChar := .inl (by omega)
  have same : (Char.ofNat u.toNat).toNat = u.toNat := by rw [Char.toNat_ofNat, if_pos valid]
  rw [← unitsOfChar_unit same]
  refine .plain (same.symm ▸ visible) (fun quote => unquoted ?_) (fun escape => unescaped ?_)
  · rw [← same, quote]
    rfl
  · rw [← same, escape]
    rfl

theorem unitEscape_spells (u : UInt16) : SpellsPiece [u] (unitEscape u.toNat) := by
  have digit (n : Nat) : hexValue? (hexDigit (n % 16)) = some (n % 16) :=
    hexValue?_hexDigit _ (Nat.mod_lt _ (by decide))
  have small : u.toNat < 65536 := u.toNat_lt
  have number : ((u.toNat / 4096 % 16 * 16 + u.toNat / 256 % 16) * 16 + u.toNat / 16 % 16) * 16 +
      u.toNat % 16 = u.toNat := by omega
  refine .number ?_
  simp only [hexUnit?, digit, Option.bind_eq_bind, Option.bind_some, number, UInt16.ofNat_toNat]
  rfl

theorem writeUnit_spells (u : UInt16) : SpellsPiece [u] (writeUnit u) := by
  rw [writeUnit]
  split_ifs with quote escape back feed line carriage tab visible
  · exact letter_spells rfl quote
  · exact letter_spells rfl escape
  · exact letter_spells rfl back
  · exact letter_spells rfl feed
  · exact letter_spells rfl line
  · exact letter_spells rfl carriage
  · exact letter_spells rfl tab
  · exact plain_spells visible.1 visible.2 quote escape
  · exact unitEscape_spells u

theorem writeUnits_spells (units : List UInt16) : SpellsText units (units.flatMap writeUnit) := by
  induction units with
  | nil => exact .nil
  | cons u units ih => exact .cons (writeUnit_spells u) ih

/-! Numbers. -/

theorem integer_spells {n : Int} (short : (natural n.natAbs).length ≤ maxIntegerDigits) :
    Spells depth (.value (.int n)) (Decimal.integer n) := by
  let l : Literal := ⟨n < 0, natural n.natAbs, [], none⟩
  have legal : l.Legal := ⟨Decimal.natural_ne_nil _, Decimal.natural_leading _,
    fun c member => Decimal.isDigit_of_mem_natural member, by simp [l], by simp [l]⟩
  have text : l.text = Decimal.integer n := by
    simp [l, Literal.text, Literal.unsigned, Literal.fraction, Literal.exponent, Decimal.integer_eq]
  have value : l.whole? = n := by
    simp only [l, Literal.whole?, Decimal.digitsValue_natural, decide_eq_true_eq]
    omega
  rw [← text]
  nth_rewrite 1 [← value]
  exact .int legal ⟨rfl, rfl⟩ short

theorem writeReal_spells {x : Float} (finite : Binary64.isFinite x = true) :
    Spells depth (.value (.real x)) (writeReal x) := by
  obtain ⟨negative, code, below, rfl⟩ := Binary64.exists_ofCode finite
  obtain ⟨l, legal, fractional, text, value⟩ := Decimal.exists_exact negative below
  have written : writeReal (Binary64.ofCode negative code) = l.text := by
    rw [writeReal, Decimal.write, Binary64.ofFloat_ofCode negative below, text]
  rw [written, ← value]
  exact .real legal fractional

/-! Arrays and objects. -/

theorem breakLine_blank (layout : Layout) (indent : Nat) : Blank (breakLine layout indent) := by
  cases layout with
  | line => exact List.forall_mem_nil _
  | block =>
    refine List.forall_mem_cons.mpr ⟨rfl, fun c member => ?_⟩
    rw [List.eq_of_mem_replicate member]
    rfl

theorem exists_separator (layout : Layout) (indent : Nat) :
    ∃ b, Blank b ∧ separator layout indent = ',' :: b := by
  cases layout with
  | line => exact ⟨[' '], by simp [Blank, isSpace], rfl⟩
  | block => exact ⟨_, breakLine_blank .block indent, rfl⟩

theorem writeItems_spells {indent : Nat} {items : List Json}
    (each : ∀ v ∈ items, Spells depth (.value v) (write layout indent v)) (first : Json)
    (spells : Spells depth (.value first) (write layout indent first)) :
    Spells depth (.items (first :: items)) (write layout indent first ++ writeItems layout indent items) := by
  induction items generalizing first with
  | nil =>
    rw [writeItems, List.append_nil]
    exact .item spells
  | cons next items ih =>
    obtain ⟨now, later⟩ := List.forall_mem_cons.mp each
    obtain ⟨b, blank, shape⟩ := exists_separator layout indent
    rw [writeItems, shape, List.append_assoc, List.cons_append]
    exact .items spells (List.forall_mem_nil _) blank (ih later next now)

theorem writeField_spells {indent : Nat} {field : List UInt16 × Json}
    (spells : Spells depth (.value field.2) (write layout indent field.2)) :
    Spells depth (.field field) (writeField layout indent field) := by
  obtain ⟨name, value⟩ := field
  have blank : Blank [' '] := by simp [Blank, isSpace]
  have shape : writeField layout indent (name, value) =
      inQuotes (name.flatMap writeUnit) ++ ([] ++ ':' :: ([' '] ++ write layout indent value)) := by
    simp [writeField, writeText, inQuotes]
  rw [shape]
  exact .field (writeUnits_spells name) (List.forall_mem_nil _) blank spells

theorem writeFields_spells {indent : Nat} {fields : List (List UInt16 × Json)}
    (each : ∀ field ∈ fields, Spells depth (.value field.2) (write layout indent field.2))
    (first : List UInt16 × Json) (spells : Spells depth (.value first.2) (write layout indent first.2)) :
    Spells depth (.fields (first :: fields))
      (writeField layout indent first ++ writeFields layout indent fields) := by
  induction fields generalizing first with
  | nil =>
    rw [writeFields, List.append_nil]
    exact .lastField (writeField_spells spells)
  | cons next fields ih =>
    obtain ⟨now, later⟩ := List.forall_mem_cons.mp each
    obtain ⟨b, blank, shape⟩ := exists_separator layout indent
    rw [writeFields, shape, List.append_assoc, List.cons_append]
    exact .fields (writeField_spells spells) (List.forall_mem_nil _) blank (ih later next now)

/-! Values. -/

theorem write_joinHalves (layout : Layout) (indent : Nat) (points : List Text.CodePoint) :
    write layout indent (.text (Text.joinHalves points)) = write layout indent (.text points) :=
  congrArg writeText (Text.unitsOfPoints_joinHalves points)

theorem Writable.spells (writable : Writable depth v) :
    ∀ indent, Spells depth (.value v) (write layout indent v) := by
  induction writable with
  | null =>
    intro indent
    exact .word (by simp [words, write])
  | @bool _ b =>
    intro indent
    cases b <;> exact .word (by simp [words, write])
  | int short =>
    intro indent
    exact integer_spells short
  | real finite =>
    intro indent
    exact writeReal_spells finite
  | @text depth points apart =>
    intro indent
    have spelled : Spells depth (.value (.text (Text.joinHalves points))) (write layout indent (.text points)) :=
      .text (writeUnits_spells points)
    rwa [Text.joinHalves_of_apart apart] at spelled
  | @array _ items _ ih =>
    intro indent
    cases items with
    | nil => exact .emptyArray (List.forall_mem_nil _)
    | cons first items =>
      have inside := writeItems_spells (fun v later => ih v (List.mem_cons_of_mem _ later) (indent + 1)) first
        (ih first List.mem_cons_self (indent + 1))
      have written := Spells.array (breakLine_blank layout (indent + 1)) inside (breakLine_blank layout indent)
      simpa [write] using written
  | @object _ fields distinct _ ih =>
    intro indent
    cases fields with
    | nil => exact .emptyObject (List.forall_mem_nil _)
    | cons first fields =>
      have inside := writeFields_spells (fun v later => ih v (List.mem_cons_of_mem _ later) (indent + 1)) first
        (ih first List.mem_cons_self (indent + 1))
      have written := Spells.object (breakLine_blank layout (indent + 1)) inside (breakLine_blank layout indent)
      rw [collected_eq distinct] at written
      simpa [write] using written

/-- What is written holds the value. -/
theorem Writable.holds (writable : Writable depthLimit v) : Holds (write layout 0 v) v :=
  ⟨[], _, [], List.forall_mem_nil _, writable.spells 0, List.forall_mem_nil _, (List.append_nil _).symm⟩

/-- What is written is read as the value. -/
theorem Writable.read_write (writable : Writable depthLimit v) : read (write layout 0 v) = .ok v :=
  writable.holds.read

/-! Pieces. -/

/-- Pieces that can all be written, and the text that they make. -/
def Makes (pieces : List (Option (List Char))) (text : List Char) : Prop :=
  ∃ parts : List (List Char), pieces = parts.map some ∧ parts.flatten = text

namespace Makes
variable {ps qs : List (Option (List Char))} {cs ds : List Char}

theorem one (cs : List Char) : Makes [some cs] cs := ⟨[cs], rfl, by simp⟩

theorem append (first : Makes ps cs) (second : Makes qs ds) : Makes (ps ++ qs) (cs ++ ds) := by
  obtain ⟨parts, rfl, rfl⟩ := first
  obtain ⟨others, rfl, rfl⟩ := second
  exact ⟨parts ++ others, by simp, by simp⟩

theorem cons (cs : List Char) (rest : Makes ps ds) : Makes (some cs :: ps) (cs ++ ds) := (one cs).append rest

/-- What goes out of such pieces is all of them. -/
theorem part {v : Json} (makes : Makes (v.pieces 0) cs) : v.writtenPart = cs := by
  obtain ⟨parts, pieces, rfl⟩ := makes
  have all : (parts.map some).takeWhile Option.isSome = parts.map some :=
    List.takeWhile_eq_self_iff.mpr (by simp)
  rw [writtenPart, pieces, all, List.flatMap_map]
  simp

end Makes

theorem pieces_joinHalves (indent : Nat) (points : List Text.CodePoint) :
    pieces indent (.text (Text.joinHalves points)) = pieces indent (.text points) :=
  congrArg (fun text => [some text]) (write_joinHalves .block indent points)

theorem pieces_single {item : Json} (flat : item.isNested = false) (indent : Nat) :
    ∃ piece, item.pieces indent = [piece] := by
  cases item with
  | null | bool | int | real | text => exact ⟨_, rfl⟩
  | array | object => cases flat

theorem makes_ledBy (lead : List Char) {text : List Char} {item : Json} {indent : Nat}
    (makes : Makes (item.pieces indent) text) :
    Makes (ledBy lead item (item.pieces indent)) (lead ++ text) := by
  unfold ledBy
  split
  · exact makes.cons lead
  · rename_i nested
    obtain ⟨piece, single⟩ := pieces_single (Bool.eq_false_of_not_eq_true nested) indent
    obtain ⟨parts, pieces, rfl⟩ := makes
    obtain ⟨part, rfl, rfl⟩ : ∃ part, parts = [part] ∧ piece = some part := by
      rw [single, eq_comm, List.map_eq_singleton_iff] at pieces
      obtain ⟨part, shape, same⟩ := pieces
      exact ⟨part, shape, same.symm⟩
    rw [pieces]
    simpa using Makes.one (lead ++ part)

theorem itemPieces_makes {indent : Nat} {items : List Json}
    (each : ∀ v ∈ items, Makes (v.pieces indent) (write .block indent v)) :
    Makes (itemPieces indent items) (writeItems .block indent items) := by
  induction items with
  | nil => exact ⟨[], rfl, rfl⟩
  | cons item items ih =>
    obtain ⟨first, rest⟩ := List.forall_mem_cons.mp each
    rw [itemPieces, writeItems]
    exact (makes_ledBy _ first).append (ih rest)

theorem fieldPieces_makes {indent : Nat} {field : List UInt16 × Json}
    (makes : Makes (field.2.pieces indent) (write .block indent field.2)) :
    Makes (fieldPieces indent field) (writeField .block indent field) := by
  obtain ⟨name, value⟩ := field
  rw [fieldPieces, writeField]
  exact makes.cons _

theorem moreFieldPieces_makes {indent : Nat} {fields : List (List UInt16 × Json)}
    (each : ∀ field ∈ fields, Makes (field.2.pieces indent) (write .block indent field.2)) :
    Makes (moreFieldPieces indent fields) (writeFields .block indent fields) := by
  induction fields with
  | nil => exact ⟨[], rfl, rfl⟩
  | cons field fields ih =>
    obtain ⟨first, rest⟩ := List.forall_mem_cons.mp each
    rw [moreFieldPieces, writeFields]
    exact ((fieldPieces_makes first).cons (separator .block indent)).append (ih rest)

/-- A value that can be written is written as a whole. -/
theorem Writable.makes (writable : Writable depth v) :
    ∀ indent, Makes (v.pieces indent) (write .block indent v) := by
  induction writable with
  | null | bool | real | text => exact fun indent => .one _
  | int short =>
    intro indent
    rw [pieces, if_pos short]
    exact .one _
  | @array _ items _ ih =>
    intro indent
    cases items with
    | nil => exact .one _
    | cons first items =>
      obtain ⟨led, more⟩ := List.forall_mem_cons.mp ih
      have inside := (makes_ledBy ('[' :: breakLine .block (indent + 1)) (led (indent + 1))).append
        (itemPieces_makes fun v later => more v later (indent + 1))
      have whole := inside.append (.one (breakLine .block indent ++ [']']))
      rw [← List.append_assoc] at whole
      rwa [pieces, write]
  | @object _ fields _ _ ih =>
    intro indent
    cases fields with
    | nil => exact .one _
    | cons first fields =>
      obtain ⟨led, more⟩ := List.forall_mem_cons.mp ih
      have inside := ((fieldPieces_makes (led (indent + 1))).cons ('{' :: breakLine .block (indent + 1))).append
        (moreFieldPieces_makes fun field later => more field later (indent + 1))
      have whole := inside.append (.one (breakLine .block indent ++ ['}']))
      rw [← List.append_assoc] at whole
      rwa [pieces, write]

end Toolpath.Json
