import Mathlib
import Toolpath.Proofs.Json.Grammar

/-! The reader takes every text of the grammar for the value that it holds. It reads on as far as it can,
so what follows a number must not continue it: behind a value stands a blank, one of the signs that end
it, or nothing. -/
namespace Toolpath.Json
open Decimal (Literal Mark maxIntegerDigits takeWhile_append_stop dropWhile_append_stop)

variable {depth fuel : Nat} {v : Json} {cs b rest : List Char}

/-- What can stand behind a value. -/
def Follows (rest : List Char) : Prop :=
  ∀ c ∈ rest.head?, isSpace c = true ∨ c = ',' ∨ c = ']' ∨ c = '}'

theorem Follows.stops (follows : Follows rest) :
    ∀ c ∈ rest.head?, c.isDigit = false ∧ c ≠ '.' ∧ c ≠ 'e' ∧ c ≠ 'E' := by
  intro c first
  have cases : c = ' ' ∨ c = '\t' ∨ c = '\n' ∨ c = '\r' ∨ c = ',' ∨ c = ']' ∨ c = '}' := by
    simpa [isSpace, or_assoc] using follows c first
  rcases cases with rfl | rfl | rfl | rfl | rfl | rfl | rfl <;> decide

theorem follows_nil : Follows [] := by
  simp [Follows]

theorem follows_cons {c : Char} (sign : c = ',' ∨ c = ']' ∨ c = '}') : Follows (c :: rest) := by
  rintro _ ⟨⟩
  exact .inr sign

theorem Blank.follows (blank : Blank b) (follows : Follows rest) : Follows (b ++ rest) := by
  cases b with
  | nil => exact follows
  | cons c b =>
    rintro _ ⟨⟩
    exact .inl (blank c List.mem_cons_self)

theorem skipSpace_blank (blank : Blank b) (headed : Headed cs) : skipSpace (b ++ cs) = cs := by
  obtain ⟨c, tail, rfl, visible⟩ := headed
  exact dropWhile_append_stop blank fun _ same => (Option.some.inj same) ▸ visible

theorem skipSpace_all (blank : Blank b) : skipSpace b = [] :=
  List.dropWhile_eq_nil_iff.mpr blank

/-! Texts. -/

theorem SpellsPiece.read {us : List UInt16} (piece : SpellsPiece us cs) (rest : List Char) :
    readText (cs ++ rest) = (readText rest).map fun (units, after) => (us ++ units, after) := by
  cases piece with
  | @plain c visible unquoted unescaped =>
    have clean : ¬ (c.toNat < 0x20 ∨ c = '\\') := not_or.mpr ⟨by omega, unescaped⟩
    rw [List.singleton_append, readText]
    · rw [if_neg clean]
      cases readText rest <;> rfl
    · exact unquoted
    · exact fun _ _ _ _ _ same _ => unescaped same
    · exact fun _ _ same _ => unescaped same
  | letter stands =>
    rw [List.cons_append, List.singleton_append, readText]
    · rw [stands]
      cases readText rest <;> rfl
    · rintro _ _ _ _ _ rfl _
      cases stands
  | number hexadecimal =>
    simp only [List.cons_append, List.nil_append]
    rw [readText, hexadecimal]
    cases readText rest <;> rfl

theorem SpellsText.read {units : List UInt16} (spelled : SpellsText units cs) (rest : List Char) :
    readText (cs ++ '"' :: rest) = some (units, rest) := by
  induction spelled with
  | nil => rfl
  | cons first _ ih =>
    rw [List.append_assoc, first.read, ih]
    rfl

/-! Numbers. -/

section
variable {l : Literal} (legal : l.Legal)
include legal

theorem readWhole?_literal (stops : ∀ c ∈ rest.head?, c.isDigit = false) :
    readWhole? (l.whole ++ rest) = some (l.whole, rest) := by
  rcases legal.leading with zero | other
  · rw [zero]
    rfl
  · obtain ⟨c, tail, shape⟩ := List.exists_cons_of_ne_nil legal.filled
    rw [shape, List.head?_cons, Ne, Option.some.injEq] at other
    have take := takeWhile_append_stop legal.whole stops
    have drop := dropWhile_append_stop legal.whole stops
    rw [readWhole?]
    · simp only [take, drop, legal.filled, if_false]
    · rw [shape]
      intro _ same
      exact other (List.cons.inj same).1

theorem readFraction_literal (stops : ∀ c ∈ rest.head?, c.isDigit = false ∧ c ≠ '.') :
    readFraction (l.fraction ++ rest) = (l.fraction, rest) := by
  unfold Literal.fraction
  split
  · rename_i none
    rw [List.nil_append]
    cases rest with
    | nil => rfl
    | cons c rest =>
      rw [readFraction]
      intro _ same
      exact (stops c rfl).2 (List.cons.inj same).1
  · rename_i some
    have digit c (first : c ∈ rest.head?) := (stops c first).1
    have take := takeWhile_append_stop legal.part digit
    have drop := dropWhile_append_stop legal.part digit
    simp only [List.cons_append, readFraction, take, drop, some, if_false]

end

/-- The reader writes every exponent with a small letter. -/
def small (l : Literal) : Literal := { l with mark := l.mark.map fun m => { m with letter := 'e' } }

theorem small_legal {l : Literal} (legal : l.Legal) : (small l).Legal := by
  refine ⟨legal.filled, legal.leading, legal.whole, legal.part, fun m marked => ?_⟩
  obtain ⟨original, member, rfl⟩ := Option.map_eq_some_iff.mp marked
  obtain ⟨-, sign, filled, digits⟩ := legal.mark original member
  exact ⟨.inl rfl, sign, filled, digits⟩

theorem small_value (l : Literal) : (small l).value = l.value := by
  have same : ((small l).mark.map Mark.value) = l.mark.map Mark.value := by
    rw [small, Option.map_map]
    rfl
  rw [Literal.value, Literal.value, Literal.scale, Literal.scale, same]
  rfl

theorem readExponent_literal {l : Literal} (legal : l.Legal)
    (stops : ∀ c ∈ rest.head?, c.isDigit = false ∧ c ≠ 'e' ∧ c ≠ 'E') :
    readExponent (l.exponent ++ rest) = ((small l).exponent, rest) := by
  unfold Literal.exponent small
  cases shape : l.mark with
  | none =>
    cases rest with
    | nil => rfl
    | cons c rest =>
      obtain ⟨-, small, capital⟩ := stops c rfl
      exact if_neg (not_or.mpr ⟨small, capital⟩)
  | some m =>
    obtain ⟨letter, sign, filled, all⟩ := legal.mark m shape
    have digit c (first : c ∈ rest.head?) := (stops c first).1
    have take := takeWhile_append_stop all digit
    have drop := dropWhile_append_stop all digit
    simp only [Option.map_some, Option.getD_some, Mark.text, List.cons_append, List.append_assoc,
      readExponent, if_pos letter]
    rcases sign with same | same | same <;> rw [same]
    · obtain ⟨c, tail, digits⟩ := List.exists_cons_of_ne_nil filled
      have first := all c (digits ▸ List.mem_cons_self)
      rw [List.nil_append]
      split
      · rename_i more shape
        rw [digits, List.cons_append] at shape
        exact absurd (List.cons.inj shape).1 (Decimal.ne_of_isDigit first rfl)
      · rename_i more shape
        rw [digits, List.cons_append] at shape
        exact absurd (List.cons.inj shape).1 (Decimal.ne_of_isDigit first rfl)
      · simp only [take, drop, if_neg filled, List.nil_append]
    · simp only [List.cons_append, List.nil_append, take, drop, if_neg filled]
    · simp only [List.cons_append, List.nil_append, take, drop, if_neg filled]

/-- The four parts of a literal are found one after the other. -/
theorem readNumber_literal {l : Literal} (legal : l.Legal) (follows : Follows rest) :
    readNumber (l.text ++ rest) =
      if l.fraction = [] ∧ (small l).exponent = [] then
        (Decimal.int? (Decimal.signed l.negative l.whole)).map fun n => (.int n, rest)
      else (Decimal.float? (small l).text).map fun x => (.real x, rest) := by
  have stops c (first : c ∈ rest.head?) := follows.stops c first
  have points := Literal.exponent_stops (fun c first => ⟨(stops c first).1, (stops c first).2.1⟩) legal
  have digits := Literal.fraction_stops (fun c first => ⟨(stops c first).1, (stops c first).2.1⟩) legal
  have whole := readWhole?_literal legal digits
  have fraction := readFraction_literal legal points
  have exponent := readExponent_literal legal fun c first => ⟨(stops c first).1, (stops c first).2.2⟩
  have parts : (small l).unsigned = l.whole ++ (l.fraction ++ (small l).exponent) := rfl
  have bound {α β : Type} (found : Option α) (f : α → β) : (found.bind fun a => pure (f a)) = found.map f := by
    cases found <;> rfl
  cases sign : l.negative
  · obtain ⟨c, tail, shape, digit⟩ := Literal.unsigned_cons legal
    rw [Literal.text_of_positive sign, Literal.text_of_positive (l := small l) sign, parts]
    simp only [readNumber]
    split
    · rename_i more same
      rw [shape] at same
      exact absurd (List.cons.inj same).1 (Decimal.ne_of_isDigit digit rfl)
    · simp only [Literal.unsigned, List.append_assoc, whole, Option.bind_eq_bind, Option.bind_some, fraction,
        exponent, List.nil_append, bound]
      rfl
  · rw [Literal.text_of_negative sign, Literal.text_of_negative (l := small l) sign, parts]
    simp only [readNumber, List.cons_append, Literal.unsigned, List.append_assoc, whole, Option.bind_eq_bind,
      Option.bind_some, fraction, exponent, List.nil_append, bound]
    rfl

theorem readNumber_int {l : Literal} (legal : l.Legal) (integral : l.integral)
    (short : l.whole.length ≤ maxIntegerDigits) (follows : Follows rest) :
    readNumber (l.text ++ rest) = some (.int l.whole?, rest) := by
  have fraction : l.fraction = [] := if_pos integral.1
  have exponent : (small l).exponent = [] := by rw [small, Literal.exponent, integral.2]; rfl
  have plain : Decimal.signed l.negative l.whole = l.text := by
    rw [Literal.text, Literal.unsigned, fraction, Literal.exponent, integral.2]
    simp
  rw [readNumber_literal legal follows, if_pos ⟨fraction, exponent⟩, plain,
    Literal.int?_text legal integral, if_pos short]
  rfl

theorem readNumber_real {l : Literal} (legal : l.Legal) (fractional : ¬ l.integral)
    (follows : Follows rest) : readNumber (l.text ++ rest) = some (.real l.value, rest) := by
  have parts : ¬ (l.fraction = [] ∧ (small l).exponent = []) := by
    rintro ⟨fraction, exponent⟩
    refine fractional ⟨?_, ?_⟩
    · unfold Literal.fraction at fraction
      split at fraction
      · assumption
      · cases fraction
    · unfold small Literal.exponent at exponent
      cases shape : l.mark with
      | none => rfl
      | some m =>
        rw [shape] at exponent
        cases exponent
  rw [readNumber_literal legal follows, if_neg parts, Literal.float?_text (small_legal legal), small_value]
  rfl

/-! Words. -/

theorem readWord_words (rest : List Char) :
    ∀ word ∈ words, readWord (word.1 ++ rest) = some (word.2, rest) := by
  simp only [words, List.forall_mem_cons]
  refine ⟨?_, ?_, ?_, ?_, ?_, ?_, List.forall_mem_nil _⟩ <;> rfl

theorem take_ne {c letter : Char} (other : c ≠ letter) (tail letters : List Char) (n : Nat) :
    (c :: tail).take n ≠ letter :: letters := by
  cases n with
  | zero => exact List.cons_ne_nil _ _ ∘ Eq.symm
  | succ n =>
    rw [List.take_succ_cons]
    exact fun same => other (List.cons.inj same).1

theorem take_ne_next {c letter : Char} (other : c ≠ letter) (a b : Char) (tail letters : List Char)
    (n : Nat) : (a :: c :: tail).take n ≠ b :: letter :: letters := by
  cases n with
  | zero => exact List.cons_ne_nil _ _ ∘ Eq.symm
  | succ n =>
    rw [List.take_succ_cons]
    exact fun same => take_ne other tail letters n (List.cons.inj same).2

/-- No word begins as a number does. -/
theorem readWord_literal {l : Literal} (legal : l.Legal) (rest : List Char) :
    readWord (l.text ++ rest) = readNumber (l.text ++ rest) := by
  obtain ⟨c, tail, shape, digit⟩ := Literal.unsigned_cons legal
  have other d (letter : d.isDigit = false) : c ≠ d := Decimal.ne_of_isDigit digit letter
  cases sign : l.negative
  · have text : l.text ++ rest = c :: (tail ++ rest) := by
      rw [Literal.text_of_positive sign, shape, List.cons_append]
    have first {letter} (notDigit : letter.isDigit = false) := take_ne (other letter notDigit) (tail ++ rest)
    rw [text]
    simp [readWord, @first 'n' rfl, @first 't' rfl, @first 'f' rfl, @first 'N' rfl, @first 'I' rfl,
      @first '-' rfl]
  · have text : l.text ++ rest = '-' :: c :: (tail ++ rest) := by
      rw [Literal.text_of_negative sign, shape, List.cons_append, List.cons_append]
    have first {letter} (differs : '-' ≠ letter) := take_ne differs (c :: (tail ++ rest))
    have second := take_ne_next (other 'I' rfl) '-' '-' (tail ++ rest)
    rw [text]
    simp [readWord, @first 'n' (by decide), @first 't' (by decide), @first 'f' (by decide),
      @first 'N' (by decide), @first 'I' (by decide), second]

/-! Values. -/

/-- What does not begin a text, an array or an object. -/
def Scalar (cs : List Char) : Prop := ∃ c tail, cs = c :: tail ∧ c ≠ '"' ∧ c ≠ '[' ∧ c ≠ '{'

theorem words_scalar : ∀ word ∈ words, Scalar word.1 := by
  simp only [words, List.forall_mem_cons]
  refine ⟨?_, ?_, ?_, ?_, ?_, ?_, List.forall_mem_nil _⟩ <;> exact ⟨_, _, rfl, by decide, by decide, by decide⟩

theorem literal_scalar {l : Literal} (legal : l.Legal) : Scalar l.text := by
  obtain ⟨c, rest, shape, rfl | digit⟩ := literal_head legal
  · exact ⟨_, rest, shape, by decide, by decide, by decide⟩
  · exact ⟨c, rest, shape, Decimal.ne_of_isDigit digit rfl, Decimal.ne_of_isDigit digit rfl,
      Decimal.ne_of_isDigit digit rfl⟩

theorem readValue_scalar (scalar : Scalar cs) (found : readWord (cs ++ rest) = some (v, rest)) :
    readValue (fuel + 1) depth (cs ++ rest) = .ok (v, rest) := by
  obtain ⟨c, tail, rfl, text, array, object⟩ := scalar
  rw [List.cons_append] at found ⊢
  rw [readValue, found]
  · rfl
  all_goals
    intros
    simp_all

theorem readValue_text {units : List UInt16} (spelled : SpellsText units cs) :
    readValue (fuel + 1) depth (inQuotes cs ++ rest) = .ok (.text (Text.pointsOfUnits units), rest) := by
  have found : readText (cs ++ ['"'] ++ rest) = some (units, rest) := by
    rw [List.append_assoc]
    exact spelled.read rest
  rw [inQuotes, List.cons_append, readValue, found]
  rfl

theorem readValue_bracket (cs : List Char) : readValue (fuel + 1) (depth + 1) ('[' :: cs) =
    match skipSpace cs with
    | ']' :: after => .ok (.array [], after)
    | more => (readItems fuel depth more).map fun (items, after) => (.array items, after) := rfl

theorem readValue_brace (cs : List Char) : readValue (fuel + 1) (depth + 1) ('{' :: cs) =
    match skipSpace cs with
    | '}' :: after => .ok (.object [], after)
    | more => (readFields fuel depth [] more).map fun (fields, after) => (.object fields, after) := rfl

theorem readValue_emptyArray (blank : Blank b) :
    readValue (fuel + 1) (depth + 1) ('[' :: (b ++ ']' :: rest)) = .ok (.array [], rest) := by
  have skipped : skipSpace (b ++ ']' :: rest) = ']' :: rest := skipSpace_blank blank ⟨']', _, rfl, rfl⟩
  rw [readValue_bracket, skipped]
  rfl

theorem readValue_array (blank : Blank b) (opens : Opens cs) :
    readValue (fuel + 1) (depth + 1) ('[' :: (b ++ cs)) =
      (readItems fuel depth cs).map fun (items, after) => (.array items, after) := by
  have skipped : skipSpace (b ++ cs) = cs := skipSpace_blank blank opens.headed
  obtain ⟨c, tail, rfl, -, open', -⟩ := opens
  rw [readValue_bracket, skipped]
  split
  · rename_i after shape
    exact absurd (List.cons.inj shape).1 open'
  · rfl

theorem readValue_emptyObject (blank : Blank b) :
    readValue (fuel + 1) (depth + 1) ('{' :: (b ++ '}' :: rest)) = .ok (.object [], rest) := by
  have skipped : skipSpace (b ++ '}' :: rest) = '}' :: rest := skipSpace_blank blank ⟨'}', _, rfl, rfl⟩
  rw [readValue_brace, skipped]
  rfl

theorem readValue_object (blank : Blank b) (opens : Opens cs) :
    readValue (fuel + 1) (depth + 1) ('{' :: (b ++ cs)) =
      (readFields fuel depth [] cs).map fun (fields, after) => (.object fields, after) := by
  have skipped : skipSpace (b ++ cs) = cs := skipSpace_blank blank opens.headed
  obtain ⟨c, tail, rfl, -, -, open'⟩ := opens
  rw [readValue_brace, skipped]
  split
  · rename_i after shape
    exact absurd (List.cons.inj shape).1 open'
  · rfl

/-! Items and fields. -/

theorem readItems_last (value : readValue fuel depth (cs ++ (b ++ ']' :: rest)) = .ok (v, b ++ ']' :: rest))
    (blank : Blank b) : readItems (fuel + 1) depth (cs ++ (b ++ ']' :: rest)) = .ok ([v], rest) := by
  have skipped : skipSpace (b ++ ']' :: rest) = ']' :: rest := skipSpace_blank blank ⟨']', _, rfl, rfl⟩
  rw [readItems, value]
  simp only [skipped]

theorem readItems_more {b' ds : List Char}
    (value : readValue fuel depth (cs ++ (b ++ ',' :: (b' ++ ds))) = .ok (v, b ++ ',' :: (b' ++ ds)))
    (before : Blank b) (after : Blank b') (headed : Headed ds) :
    readItems (fuel + 1) depth (cs ++ (b ++ ',' :: (b' ++ ds))) =
      (readItems fuel depth ds).map fun (items, after) => (v :: items, after) := by
  have skipped : skipSpace (b ++ ',' :: (b' ++ ds)) = ',' :: (b' ++ ds) :=
    skipSpace_blank before ⟨',', _, rfl, rfl⟩
  rw [readItems, value]
  simp only [skipped, skipSpace_blank after headed]

/-- What is read behind a field. -/
def afterField (fuel depth : Nat) (fields : List (List UInt16 × Json)) (cs : List Char) :
    Reading (List (List UInt16 × Json)) :=
  match skipSpace cs with
  | '}' :: after => .ok (fields, after)
  | ',' :: more => readFields fuel depth fields (skipSpace more)
  | _ => malformed

theorem afterField_last {fields : List (List UInt16 × Json)} (blank : Blank b) :
    afterField fuel depth fields (b ++ '}' :: rest) = .ok (fields, rest) := by
  have skipped : skipSpace (b ++ '}' :: rest) = '}' :: rest := skipSpace_blank blank ⟨'}', _, rfl, rfl⟩
  rw [afterField, skipped]
  rfl

theorem afterField_more {fields : List (List UInt16 × Json)} {b' : List Char} (before : Blank b)
    (after : Blank b') (headed : Headed cs) :
    afterField fuel depth fields (b ++ ',' :: (b' ++ cs)) = readFields fuel depth fields cs := by
  have skipped : skipSpace (b ++ ',' :: (b' ++ cs)) = ',' :: (b' ++ cs) :=
    skipSpace_blank before ⟨',', _, rfl, rfl⟩
  rw [afterField, skipped]
  simp only [skipSpace_blank after headed]

theorem readFields_field {name : List UInt16} {fields : List (List UInt16 × Json)} {b' ds : List Char}
    (spelled : SpellsText name cs) (before : Blank b) (after : Blank b') (headed : Headed ds)
    (value : readValue fuel depth ds = .ok (v, rest)) :
    readFields (fuel + 1) depth fields (inQuotes cs ++ (b ++ ':' :: (b' ++ ds))) =
      afterField fuel depth (put fields name v) rest := by
  have found : readText (cs ++ ['"'] ++ (b ++ ':' :: (b' ++ ds))) = some (name, b ++ ':' :: (b' ++ ds)) := by
    rw [List.append_assoc]
    exact spelled.read _
  have skipped : skipSpace (b ++ ':' :: (b' ++ ds)) = ':' :: (b' ++ ds) :=
    skipSpace_blank before ⟨':', _, rfl, rfl⟩
  rw [inQuotes, List.cons_append, readFields, found]
  simp only [skipped, skipSpace_blank after headed, value]
  rfl

/-! Phrases. -/

/-- The reader finds a phrase, given as much fuel as the text is long, and a little more for what stands
in an array or an object. -/
def Reads (depth : Nat) (cs : List Char) : Phrase → Prop
  | .value v => ∀ fuel rest, Follows rest → cs.length < fuel →
      readValue fuel depth (cs ++ rest) = .ok (v, rest)
  | .items vs => ∀ fuel b rest, Blank b → cs.length + 1 < fuel →
      readItems fuel depth (cs ++ (b ++ ']' :: rest)) = .ok (vs, rest)
  | .field f => ∀ fuel fields rest, Follows rest → cs.length < fuel →
      readFields (fuel + 1) depth fields (cs ++ rest) = afterField fuel depth (put fields f.1 f.2) rest
  | .fields fs => ∀ fuel fields b rest, Blank b → cs.length + 1 < fuel →
      readFields fuel depth fields (cs ++ (b ++ '}' :: rest)) =
        .ok (fs.foldl (fun before field => put before field.1 field.2) fields, rest)

theorem Spells.reads {phrase : Phrase} (spells : Spells depth phrase cs) : Reads depth cs phrase := by
  induction spells with
  | word known =>
    rintro (_ | fuel) rest _ enough
    · cases enough
    · exact readValue_scalar (words_scalar _ known) (readWord_words rest _ known)
  | text spelled =>
    rintro (_ | fuel) rest _ enough
    · cases enough
    · exact readValue_text spelled
  | int legal integral short =>
    rintro (_ | fuel) rest follows enough
    · cases enough
    · refine readValue_scalar (literal_scalar legal) ?_
      rw [readWord_literal legal, readNumber_int legal integral short follows]
  | real legal fractional =>
    rintro (_ | fuel) rest follows enough
    · cases enough
    · refine readValue_scalar (literal_scalar legal) ?_
      rw [readWord_literal legal, readNumber_real legal fractional follows]
  | emptyArray blank =>
    rintro (_ | fuel) rest _ enough
    · cases enough
    · rw [List.cons_append, List.append_assoc]
      exact readValue_emptyArray blank
  | array before items after ih =>
    rintro (_ | fuel) rest _ enough
    · cases enough
    · simp only [List.length_cons, List.length_append] at enough
      simp only [List.cons_append, List.append_assoc, List.nil_append]
      rw [readValue_array before (items.opens.append _), ih fuel _ rest after (by omega)]
      rfl
  | emptyObject blank =>
    rintro (_ | fuel) rest _ enough
    · cases enough
    · rw [List.cons_append, List.append_assoc]
      exact readValue_emptyObject blank
  | object before fields after ih =>
    rintro (_ | fuel) rest _ enough
    · cases enough
    · simp only [List.length_cons, List.length_append] at enough
      simp only [List.cons_append, List.append_assoc, List.nil_append]
      rw [readValue_object before (fields.opens.append _), ih fuel [] _ rest after (by omega)]
      rfl
  | item _ ih =>
    rintro (_ | fuel) b rest blank enough
    · cases enough
    · exact readItems_last (ih fuel _ (blank.follows (follows_cons (by simp))) (by omega)) blank
  | items _ before after rest ihFirst ihRest =>
    rintro (_ | fuel) b tail blank enough
    · cases enough
    · simp only [List.length_cons, List.length_append] at enough
      simp only [List.cons_append, List.append_assoc]
      rw [readItems_more (ihFirst fuel _ (before.follows (follows_cons (by simp))) (by omega)) before after
        (rest.opens.headed.append _), ihRest fuel b tail blank (by omega)]
      rfl
  | field spelled before after value ih =>
    intro fuel fields rest follows enough
    simp only [List.length_cons, List.length_append] at enough
    simp only [List.cons_append, List.append_assoc]
    exact readFields_field spelled before after (value.opens.headed.append _)
      (ih fuel rest follows (by omega))
  | lastField _ ih =>
    rintro (_ | fuel) fields b rest blank enough
    · cases enough
    · rw [ih fuel fields _ (blank.follows (follows_cons (by simp))) (by omega), afterField_last blank]
      rfl
  | fields _ before after rest ihFirst ihRest =>
    rintro (_ | fuel) fields b tail blank enough
    · cases enough
    · simp only [List.length_cons, List.length_append] at enough
      simp only [List.cons_append, List.append_assoc]
      rw [ihFirst fuel fields _ (before.follows (follows_cons (by simp))) (by omega),
        afterField_more before after (rest.opens.headed.append _), ihRest fuel _ b tail blank (by omega)]
      rfl

/-- A text that holds a value is read as it. -/
theorem Holds.read (holds : Holds cs v) : read cs = .ok v := by
  obtain ⟨b, w, b', before, spells, after, rfl⟩ := holds
  have follows : Follows b' := by
    simpa using after.follows follows_nil
  have found := spells.reads ((b ++ (w ++ b')).length + 1) b' follows (by simp; omega)
  rw [Json.read, skipSpace_blank before (spells.opens.headed.append b'), found]
  simp only [skipSpace_all after, if_true]

end Toolpath.Json
