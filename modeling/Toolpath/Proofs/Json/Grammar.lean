import Mathlib
import Toolpath.Json.Reader
import Toolpath.Proofs.Decimal.Literal
import Toolpath.Text.Utf8

/-! The grammar of JSON, beside the reader. It says which texts hold which value: blanks may stand around
values, names and the signs between them; a text spells its characters as they are or escaped, the halves
of a pair one after the other; the last value of a name that comes again is the one that counts. How deep arrays and objects may still nest is
part of what is derived, as is the length of an integer. -/
namespace Toolpath.Json
open Decimal (Literal maxIntegerDigits)

def Blank (cs : List Char) : Prop := ∀ c ∈ cs, isSpace c = true

/-- How the units of a text are spelled: those of a character by itself or by a letter, any one by its
number. -/
inductive SpellsPiece : List UInt16 → List Char → Prop
  | plain {c : Char} (visible : 0x20 ≤ c.toNat) (unquoted : c ≠ '"') (unescaped : c ≠ '\\') :
    SpellsPiece (Text.unitsOfChar c) [c]
  | letter {c meant : Char} (stands : escaped? c = some meant) :
    SpellsPiece (Text.unitsOfChar meant) ['\\', c]
  | number {a b c d : Char} {unit : UInt16} (hexadecimal : hexUnit? a b c d = some unit) :
    SpellsPiece [unit] ['\\', 'u', a, b, c, d]

inductive SpellsText : List UInt16 → List Char → Prop
  | nil : SpellsText [] []
  | cons {us vs : List UInt16} {cs ds : List Char} (first : SpellsPiece us cs) (rest : SpellsText vs ds) :
    SpellsText (us ++ vs) (cs ++ ds)

def inQuotes (cs : List Char) : List Char := '"' :: (cs ++ ['"'])

def words : List (List Char × Json) :=
  [("null".toList, .null), ("true".toList, .bool true), ("false".toList, .bool false),
    ("NaN".toList, .real Binary64.nanValue), ("Infinity".toList, .real (Binary64.infiniteValue false)),
    ("-Infinity".toList, .real (Binary64.infiniteValue true))]

/-- An object of the fields in order. -/
def collected (fields : List (List UInt16 × Json)) : List (List UInt16 × Json) :=
  fields.foldl (fun before field => put before field.1 field.2) []

/-- What a part of a text can say. -/
inductive Phrase where
  | value (v : Json)
  | items (vs : List Json)
  | field (f : List UInt16 × Json)
  | fields (fs : List (List UInt16 × Json))

/-- A text spells a phrase in which so many arrays and objects may be opened. -/
inductive Spells : Nat → Phrase → List Char → Prop
  | word {depth : Nat} {v : Json} {cs : List Char} (known : (cs, v) ∈ words) : Spells depth (.value v) cs
  | text {depth : Nat} {units : List UInt16} {cs : List Char} (spelled : SpellsText units cs) :
    Spells depth (.value (.text (Text.pointsOfUnits units))) (inQuotes cs)
  | int {depth : Nat} {l : Literal} (legal : l.Legal) (integral : l.integral)
      (short : l.whole.length ≤ maxIntegerDigits) : Spells depth (.value (.int l.whole?)) l.text
  | real {depth : Nat} {l : Literal} (legal : l.Legal) (fractional : ¬ l.integral) :
    Spells depth (.value (.real l.value)) l.text
  | emptyArray {depth : Nat} {b : List Char} (blank : Blank b) :
    Spells (depth + 1) (.value (.array [])) ('[' :: (b ++ [']']))
  | array {depth : Nat} {vs : List Json} {b cs b' : List Char} (before : Blank b)
      (items : Spells depth (.items vs) cs) (after : Blank b') :
    Spells (depth + 1) (.value (.array vs)) ('[' :: (b ++ (cs ++ (b' ++ [']']))))
  | emptyObject {depth : Nat} {b : List Char} (blank : Blank b) :
    Spells (depth + 1) (.value (.object [])) ('{' :: (b ++ ['}']))
  | object {depth : Nat} {fs : List (List UInt16 × Json)} {b cs b' : List Char} (before : Blank b)
      (fields : Spells depth (.fields fs) cs) (after : Blank b') :
    Spells (depth + 1) (.value (.object (collected fs))) ('{' :: (b ++ (cs ++ (b' ++ ['}']))))
  | item {depth : Nat} {v : Json} {cs : List Char} (only : Spells depth (.value v) cs) :
    Spells depth (.items [v]) cs
  | items {depth : Nat} {v : Json} {vs : List Json} {cs b b' ds : List Char}
      (first : Spells depth (.value v) cs) (before : Blank b) (after : Blank b')
      (rest : Spells depth (.items vs) ds) : Spells depth (.items (v :: vs)) (cs ++ (b ++ ',' :: (b' ++ ds)))
  | field {depth : Nat} {name : List UInt16} {v : Json} {cs b b' ds : List Char}
      (spelled : SpellsText name cs) (before : Blank b) (after : Blank b')
      (value : Spells depth (.value v) ds) :
    Spells depth (.field (name, v)) (inQuotes cs ++ (b ++ ':' :: (b' ++ ds)))
  | lastField {depth : Nat} {f : List UInt16 × Json} {cs : List Char} (only : Spells depth (.field f) cs) :
    Spells depth (.fields [f]) cs
  | fields {depth : Nat} {f : List UInt16 × Json} {fs : List (List UInt16 × Json)} {cs b b' ds : List Char}
      (first : Spells depth (.field f) cs) (before : Blank b) (after : Blank b')
      (rest : Spells depth (.fields fs) ds) :
    Spells depth (.fields (f :: fs)) (cs ++ (b ++ ',' :: (b' ++ ds)))

/-- A text holds a value if it spells it, with blanks around. -/
def Holds (cs : List Char) (v : Json) : Prop :=
  ∃ b w b', Blank b ∧ Spells depthLimit (.value v) w ∧ Blank b' ∧ cs = b ++ (w ++ b')

/-! What a phrase begins with. -/

variable {depth : Nat} {phrase : Phrase} {cs rest : List Char}

theorem literal_head {l : Literal} (legal : l.Legal) :
    ∃ c rest, l.text = c :: rest ∧ (c = '-' ∨ c.isDigit = true) := by
  obtain ⟨c, rest, shape, digit⟩ := Literal.unsigned_cons legal
  cases sign : l.negative
  · exact ⟨c, rest, by rw [Literal.text_of_positive sign, shape], .inr digit⟩
  · exact ⟨'-', _, Literal.text_of_negative sign, .inl rfl⟩

theorem isSpace_of_isDigit {c : Char} (digit : c.isDigit = true) : isSpace c = false := by
  rw [Bool.eq_false_iff]
  intro space
  have cases : c = ' ' ∨ c = '\t' ∨ c = '\n' ∨ c = '\r' := by simpa [isSpace, or_assoc] using space
  rcases cases with rfl | rfl | rfl | rfl <;> cases digit

/-- A text that begins with something that is no blank. -/
def Headed (cs : List Char) : Prop := ∃ c rest, cs = c :: rest ∧ isSpace c = false

theorem Headed.append (headed : Headed cs) (rest : List Char) : Headed (cs ++ rest) := by
  obtain ⟨c, tail, rfl, visible⟩ := headed
  exact ⟨c, _, rfl, visible⟩

/-- A text that nothing closes at once. -/
def Opens (cs : List Char) : Prop :=
  ∃ c rest, cs = c :: rest ∧ isSpace c = false ∧ c ≠ ']' ∧ c ≠ '}'

theorem Opens.headed (opens : Opens cs) : Headed cs := by
  obtain ⟨c, rest, shape, visible, -⟩ := opens
  exact ⟨c, rest, shape, visible⟩

theorem Opens.append (opens : Opens cs) (rest : List Char) : Opens (cs ++ rest) := by
  obtain ⟨c, tail, rfl, visible⟩ := opens
  exact ⟨c, _, rfl, visible⟩

theorem words_opens : ∀ word ∈ words, Opens word.1 := by
  simp only [words, List.forall_mem_cons]
  refine ⟨?_, ?_, ?_, ?_, ?_, ?_, List.forall_mem_nil _⟩ <;> exact ⟨_, _, rfl, rfl, by decide, by decide⟩

theorem words_no_return : ∀ word ∈ words, '\r' ∉ word.1 := by
  decide

theorem literal_opens {l : Literal} (legal : l.Legal) : Opens l.text := by
  obtain ⟨c, rest, shape, rfl | digit⟩ := literal_head legal
  · exact ⟨_, rest, shape, rfl, by decide, by decide⟩
  · exact ⟨c, rest, shape, isSpace_of_isDigit digit, Decimal.ne_of_isDigit digit rfl,
      Decimal.ne_of_isDigit digit rfl⟩

theorem Spells.opens (spells : Spells depth phrase cs) : Opens cs := by
  induction spells with
  | word known => exact words_opens _ known
  | text | emptyArray | array | emptyObject | object | field =>
    exact ⟨_, _, rfl, rfl, by decide, by decide⟩
  | int legal | real legal => exact literal_opens legal
  | item _ ih | lastField _ ih => exact ih
  | items _ _ _ _ first _ | fields _ _ _ _ first _ => exact first.append _

/-! Fields of objects. No two have one name, and each has a value that the text spells. -/

section
variable {fields : List (List UInt16 × Json)} {name : List UInt16} {value v : Json}

theorem put_new (new : name ∉ fields.map Prod.fst) : put fields name value = fields ++ [(name, value)] := by
  induction fields with
  | nil => rfl
  | cons field fields ih =>
    obtain ⟨other, old⟩ := field
    rw [List.map_cons, List.mem_cons, not_or] at new
    rw [put, if_neg (Ne.symm new.1), ih new.2, List.cons_append]

theorem mem_put {field : List UInt16 × Json} (member : field ∈ put fields name value) :
    field = (name, value) ∨ field ∈ fields := by
  induction fields with
  | nil => exact .inl (List.mem_singleton.mp member)
  | cons first fields ih =>
    obtain ⟨other, old⟩ := first
    rw [put] at member
    split at member
    · exact (List.mem_cons.mp member).imp_right (List.mem_cons_of_mem _)
    · rcases List.mem_cons.mp member with rfl | later
      · exact .inr List.mem_cons_self
      · exact (ih later).imp_right (List.mem_cons_of_mem _)

theorem put_nodup (distinct : (fields.map Prod.fst).Nodup) : ((put fields name value).map Prod.fst).Nodup := by
  induction fields with
  | nil => simp [put]
  | cons field fields ih =>
    obtain ⟨other, old⟩ := field
    rw [List.map_cons, List.nodup_cons] at distinct
    rw [put]
    split
    · rename_i same
      subst same
      exact List.nodup_cons.mpr distinct
    · rename_i different
      refine List.nodup_cons.mpr ⟨fun member => ?_, ih distinct.2⟩
      obtain ⟨field, later, rfl⟩ := List.mem_map.mp member
      rcases mem_put later with rfl | earlier
      · exact different rfl
      · exact distinct.1 (List.mem_map.mpr ⟨field, earlier, rfl⟩)

theorem collected_nodup (fields : List (List UInt16 × Json)) : ((collected fields).map Prod.fst).Nodup := by
  exact List.foldlRecOn (motive := fun before => (List.map Prod.fst before).Nodup) fields _ List.nodup_nil
    fun _ distinct _ _ => put_nodup distinct

theorem mem_of_mem_collected {field : List UInt16 × Json} (member : field ∈ collected fields) :
    field ∈ fields := by
  have all : ∀ field ∈ collected fields, field ∈ fields := by
    refine List.foldlRecOn (motive := fun before => ∀ field ∈ before, field ∈ fields) fields _ (by simp) ?_
    intro before inside field given other member
    rcases mem_put member with rfl | earlier
    · exact given
    · exact inside other earlier
  exact all field member

/-- Fields of different names are an object as they are. -/
theorem collected_eq (distinct : (fields.map Prod.fst).Nodup) : collected fields = fields := by
  induction fields using List.reverseRecOn with
  | nil => rfl
  | append_singleton fields field ih =>
    rw [List.map_append, List.nodup_append] at distinct
    have new : field.1 ∉ fields.map Prod.fst := fun member =>
      distinct.2.2 _ member _ (List.mem_singleton_self _) rfl
    have before : collected (fields ++ [field]) = put (collected fields) field.1 field.2 := by
      rw [collected, List.foldl_append]
      rfl
    rw [before, ih distinct.1, put_new new]

theorem Spells.field_value {f : List UInt16 × Json} (spells : Spells depth (.field f) cs) :
    ∃ cs', Spells depth (.value f.2) cs' := by
  cases spells with
  | field _ _ _ value => exact ⟨_, value⟩

theorem Spells.fields_values {fs : List (List UInt16 × Json)} (spells : Spells depth (.fields fs) cs) :
    ∀ f ∈ fs, ∃ cs', Spells depth (.value f.2) cs' := by
  induction fs generalizing cs with
  | nil => simp
  | cons f fs ih =>
    cases spells with
    | lastField only => exact List.forall_mem_singleton.mpr only.field_value
    | fields first _ _ rest => exact List.forall_mem_cons.mpr ⟨first.field_value, ih rest⟩

theorem Spells.object_fields (spells : Spells depth (.value (.object fields)) cs) :
    (fields.map Prod.fst).Nodup ∧ ∀ f ∈ fields, ∃ depth' cs', Spells depth' (.value f.2) cs' := by
  cases spells with
  | word known => simp [words] at known
  | emptyObject => simp
  | object _ inside _ =>
    refine ⟨collected_nodup _, fun f member => ?_⟩
    exact ⟨_, inside.fields_values f (mem_of_mem_collected member)⟩

end

/-! Line ends. Where a carriage return may stand it is a blank, so a text holds the same value with its
line ends unified. -/

theorem unifyNewlines_cons {c : Char} (other : c ≠ '\r') (rest : List Char) :
    Text.unifyNewlines (c :: rest) = c :: Text.unifyNewlines rest := by
  rw [Text.unifyNewlines]
  · exact fun _ same _ => other same
  · exact other

theorem unifyNewlines_return (alone : ∀ tail, rest = '\n' :: tail → False) :
    Text.unifyNewlines ('\r' :: rest) = '\n' :: Text.unifyNewlines rest := by
  rw [Text.unifyNewlines]
  exact alone

/-- A text and what unifying makes of it, whatever stands behind. -/
def Unifies (cs cs' : List Char) : Prop :=
  ∀ rest, Text.unifyNewlines (cs ++ rest) = cs' ++ Text.unifyNewlines rest

namespace Unifies
variable {cs' ds ds' : List Char}

theorem append (first : Unifies cs cs') (second : Unifies ds ds') : Unifies (cs ++ ds) (cs' ++ ds') := by
  intro rest
  rw [List.append_assoc, first, second, List.append_assoc]

theorem cons {c : Char} (other : c ≠ '\r') (rest : Unifies cs cs') : Unifies (c :: cs) (c :: cs') := by
  intro tail
  rw [List.cons_append, unifyNewlines_cons other, rest, List.cons_append]

theorem refl (none : '\r' ∉ cs) : Unifies cs cs := by
  induction cs with
  | nil => exact fun rest => rfl
  | cons c cs ih =>
    exact cons (List.ne_of_not_mem_cons none).symm (ih (List.not_mem_of_not_mem_cons none))

end Unifies

/-- In front of anything that is no line feed, a text is unified on its own. -/
theorem unifyNewlines_append (next : rest.head? ≠ some '\n') :
    Text.unifyNewlines (cs ++ rest) = Text.unifyNewlines cs ++ Text.unifyNewlines rest := by
  induction cs using Text.unifyNewlines.induct with
  | case1 => rfl
  | case2 cs ih => rw [List.cons_append, List.cons_append, Text.unifyNewlines, ih, Text.unifyNewlines,
      List.cons_append]
  | case3 cs single ih =>
    have alone : ∀ tail, cs ++ rest = '\n' :: tail → False := by
      cases cs with
      | nil =>
        rintro _ rfl
        exact next rfl
      | cons c cs =>
        intro _ shape
        exact single cs (by rw [(List.cons.inj shape).1])
    rw [List.cons_append, unifyNewlines_return alone, ih, unifyNewlines_return single, List.cons_append]
  | case4 c cs _ other ih =>
    rw [List.cons_append, unifyNewlines_cons other, ih, unifyNewlines_cons other, List.cons_append]

theorem Blank.unified {b : List Char} (blank : Blank b) : Blank (Text.unifyNewlines b) := by
  induction b using Text.unifyNewlines.induct with
  | case1 => exact blank
  | case2 b ih =>
    rw [Text.unifyNewlines]
    exact List.forall_mem_cons.mpr
      ⟨rfl, ih (List.forall_mem_of_forall_mem_cons (List.forall_mem_of_forall_mem_cons blank))⟩
  | case3 b single ih =>
    rw [unifyNewlines_return single]
    exact List.forall_mem_cons.mpr ⟨rfl, ih (List.forall_mem_of_forall_mem_cons blank)⟩
  | case4 c b _ other ih =>
    rw [unifyNewlines_cons other]
    exact List.forall_mem_cons.mpr
      ⟨blank c List.mem_cons_self, ih (List.forall_mem_of_forall_mem_cons blank)⟩

theorem Headed.ne_newline (headed : Headed cs) (rest : List Char) : (cs ++ rest).head? ≠ some '\n' := by
  obtain ⟨c, tail, rfl, visible⟩ := headed
  rw [List.cons_append, List.head?_cons, Ne, Option.some.injEq]
  rintro rfl
  cases visible

theorem unifies_blank {b cs' : List Char} (blank : Blank b) (headed : Headed cs) (unifies : Unifies cs cs') :
    ∃ b', Blank b' ∧ Unifies (b ++ cs) (b' ++ cs') := by
  refine ⟨Text.unifyNewlines b, blank.unified, fun rest => ?_⟩
  rw [List.append_assoc, unifyNewlines_append (headed.ne_newline rest), unifies, List.append_assoc]

theorem SpellsPiece.no_return {us : List UInt16} (piece : SpellsPiece us cs) : '\r' ∉ cs := by
  cases piece with
  | plain visible =>
    rw [List.mem_singleton]
    rintro rfl
    exact absurd visible (by decide)
  | letter stands =>
    simp only [List.mem_cons, List.not_mem_nil, or_false, not_or]
    refine ⟨by decide, ?_⟩
    rintro rfl
    cases stands
  | number hexadecimal =>
    have hex : hexValue? '\r' = none := by decide
    simp only [List.mem_cons, List.not_mem_nil, or_false, not_or]
    refine ⟨by decide, by decide, ?_, ?_, ?_, ?_⟩ <;> rintro rfl <;> simp [hexUnit?, hex] at hexadecimal

theorem SpellsText.no_return {units : List UInt16} (spelled : SpellsText units cs) : '\r' ∉ cs := by
  induction spelled with
  | nil => exact List.not_mem_nil
  | cons first _ ih => exact List.not_mem_append first.no_return ih

theorem literal_no_return {l : Literal} (legal : l.Legal) : '\r' ∉ l.text := fun member =>
  absurd (Literal.isLiteral_of_mem legal _ member) (by decide)

theorem inQuotes_no_return (none : '\r' ∉ cs) : '\r' ∉ inQuotes cs := by
  simp [inQuotes, none]

/-- With line ends unified a phrase says the same. -/
theorem Spells.unified (spells : Spells depth phrase cs) :
    ∃ cs', Spells depth phrase cs' ∧ Unifies cs cs' := by
  induction spells with
  | word known => exact ⟨_, .word known, .refl (words_no_return _ known)⟩
  | text spelled => exact ⟨_, .text spelled, .refl (inQuotes_no_return spelled.no_return)⟩
  | int legal integral short => exact ⟨_, .int legal integral short, .refl (literal_no_return legal)⟩
  | real legal fractional => exact ⟨_, .real legal fractional, .refl (literal_no_return legal)⟩
  | emptyArray blank =>
    obtain ⟨b', blank', same⟩ := unifies_blank blank ⟨']', [], rfl, rfl⟩ (.refl (by decide))
    exact ⟨_, .emptyArray blank', same.cons (by decide)⟩
  | array before items after ih =>
    obtain ⟨cs', items', same⟩ := ih
    obtain ⟨b', after', closing⟩ := unifies_blank after ⟨']', [], rfl, rfl⟩ (.refl (by decide))
    obtain ⟨b, before', all⟩ := unifies_blank before (items.opens.headed.append _) (same.append closing)
    exact ⟨_, .array before' items' after', all.cons (by decide)⟩
  | emptyObject blank =>
    obtain ⟨b', blank', same⟩ := unifies_blank blank ⟨'}', [], rfl, rfl⟩ (.refl (by decide))
    exact ⟨_, .emptyObject blank', same.cons (by decide)⟩
  | object before fields after ih =>
    obtain ⟨cs', fields', same⟩ := ih
    obtain ⟨b', after', closing⟩ := unifies_blank after ⟨'}', [], rfl, rfl⟩ (.refl (by decide))
    obtain ⟨b, before', all⟩ := unifies_blank before (fields.opens.headed.append _) (same.append closing)
    exact ⟨_, .object before' fields' after', all.cons (by decide)⟩
  | item _ ih =>
    obtain ⟨cs', spells, same⟩ := ih
    exact ⟨cs', .item spells, same⟩
  | items _ before after rest ihFirst ihRest =>
    obtain ⟨cs', first', same⟩ := ihFirst
    obtain ⟨ds', rest', tail⟩ := ihRest
    obtain ⟨b', after', tail⟩ := unifies_blank after rest.opens.headed tail
    obtain ⟨b, before', tail⟩ := unifies_blank before ⟨',', _, rfl, rfl⟩ (tail.cons (by decide))
    exact ⟨_, .items first' before' after' rest', same.append tail⟩
  | field spelled before after value ih =>
    obtain ⟨ds', value', tail⟩ := ih
    obtain ⟨b', after', tail⟩ := unifies_blank after value.opens.headed tail
    obtain ⟨b, before', tail⟩ := unifies_blank before ⟨':', _, rfl, rfl⟩ (tail.cons (by decide))
    exact ⟨_, .field spelled before' after' value',
      (Unifies.refl (inQuotes_no_return spelled.no_return)).append tail⟩
  | lastField _ ih =>
    obtain ⟨cs', spells, same⟩ := ih
    exact ⟨cs', .lastField spells, same⟩
  | fields _ before after rest ihFirst ihRest =>
    obtain ⟨cs', first', same⟩ := ihFirst
    obtain ⟨ds', rest', tail⟩ := ihRest
    obtain ⟨b', after', tail⟩ := unifies_blank after rest.opens.headed tail
    obtain ⟨b, before', tail⟩ := unifies_blank before ⟨',', _, rfl, rfl⟩ (tail.cons (by decide))
    exact ⟨_, .fields first' before' after' rest', same.append tail⟩

/-- Reading a file unifies line ends, which changes no value. -/
theorem Holds.unified {v : Json} (holds : Holds cs v) : Holds (Text.unifyNewlines cs) v := by
  obtain ⟨b, w, b', before, spells, after, rfl⟩ := holds
  obtain ⟨w', spells', same⟩ := spells.unified
  obtain ⟨b₁, before', all⟩ := unifies_blank before spells.opens.headed same
  refine ⟨b₁, w', _, before', spells', after.unified, ?_⟩
  rw [← List.append_assoc, all, List.append_assoc]

end Toolpath.Json
