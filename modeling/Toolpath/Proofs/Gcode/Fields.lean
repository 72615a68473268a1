import Mathlib
import Toolpath.Proofs.Gcode.Acceptance
import Toolpath.Proofs.Gcode.Emission
import Toolpath.Proofs.Gcode.Places

/-! Lines of fields with a blank between each two. A blank parts a line whatever stands before it,
so every field is taken apart by itself, also one that no word can be read from. A coordinate that
is infinite or no number is written as such a field: the line that holds it is reported, and still
asks for the motion of its first word. -/
namespace Toolpath.Gcode
open Binary64 Decimal

/-! Programs line by line. -/

/-- The motion that a line asks for. -/
def motion? (line : List Char) : Option MoveKind :=
  if isMotion line then some (if isRapid line then .rapid else .linear) else none

/-- Nothing is reported about a line, wherever it stands. -/
def Unreported (line : List Char) : Prop := ∀ number, (Block.ofLine number line).2 = []

def Effect.kind? : Effect → Option MoveKind
  | .silent => none
  | .motion kind _ _ _ => some kind

theorem unreported_of_silent {number : Int} {line : List Char}
    (silent : (Block.ofLine number line).2 = []) : Unreported line :=
  fun other => (ofLine_silent_iff_written other line).mpr
    ((ofLine_silent_iff_written number line).mp silent)

theorem HasEffect.unreported {line : List Char} {effect : Effect} (has : HasEffect line effect) :
    Unreported line := fun number => (has number).1

theorem HasEffect.motion? {line : List Char} {effect : Effect} (has : HasEffect line effect) :
    motion? line = effect.kind? := by
  have asked := kind?_ofLine 1 line
  have read := (has 1).2
  rw [Gcode.motion?, ← asked]
  cases effect with
  | silent =>
    refine Option.bind_eq_none_iff.mpr ?_
    exact read
  | motion kind x y feed =>
    obtain ⟨b, block, -, kind, -⟩ := read
    rw [block]
    exact kind

theorem motions_of_effects {lines : List (List Char)} {effects : List Effect}
    (read : List.Forall₂ HasEffect lines effects) :
    lines.filterMap motion? = effects.filterMap Effect.kind? := by
  induction read with
  | nil => rfl
  | cons first _ ih => rw [List.filterMap_cons, List.filterMap_cons, first.motion?, ih]

theorem unreported_of_effects {lines : List (List Char)} {effects : List Effect}
    (read : List.Forall₂ HasEffect lines effects) : ∀ line ∈ lines, Unreported line := by
  induction read with
  | nil => exact List.forall_mem_nil _
  | cons first _ ih => exact List.forall_mem_cons.mpr ⟨first.unreported, ih⟩

/-- The motions of a program are those that its lines ask for, in order. -/
theorem kinds_parse (text : List Char) :
    (Program.parse text).moves.map (·.kind) = (Text.splitLines text).filterMap motion? := by
  have run (m : Modal) (number : Int) (lines : List (List Char)) :
      (m.run number (lines.map lineEffect)).map (·.kind) = lines.filterMap motion? := by
    induction lines generalizing m number with
    | nil => rfl
    | cons line lines ih =>
      rw [List.map_cons, List.filterMap_cons, lineEffect, Gcode.motion?]
      cases isMotion line with
      | false => exact ih m (number + 1)
      | true =>
        simp only [if_true, Modal.run, List.map_cons]
        rw [ih]
  rw [parse_run]
  exact run _ _ _

/-- A program is read without a report exactly if each of its lines is. -/
theorem parse_unreported_iff (text : List Char) :
    (Program.parse text).diagnostics = [] ↔ ∀ line ∈ Text.splitLines text, Unreported line := by
  have read (number : Int) (lines : List (List Char)) :
      (Program.readLines number lines).flatMap (·.2) = [] ↔ ∀ line ∈ lines, Unreported line := by
    induction lines generalizing number with
    | nil => simp [Program.readLines]
    | cons line lines ih =>
      rw [Program.readLines, List.flatMap_cons, List.append_eq_nil_iff, ih, List.forall_mem_cons]
      exact and_congr_left fun _ => ⟨unreported_of_silent, fun silent => silent number⟩
  rw [← read 1, Program.parse, Program.ofLines, Diagnostic.sorted]
  constructor
  · intro none
    have same := List.mergeSort_perm ((Program.readLines 1 (Text.splitLines text)).flatMap (·.2))
      Diagnostic.before
    exact List.nil_perm.mp (none ▸ same)
  · intro none
    rw [none, List.mergeSort_nil]

/-! Taking a line apart at a blank. -/

namespace Piece
variable {c : Char} (blank : Text.isBlank c = true) (rest : List Char)

include blank

theorem endsJunk_parted (d : Char) (cs : List Char) :
    endsJunk ((d :: cs) ++ c :: rest) = endsJunk (d :: cs) := by
  have scanned := Word.scan?_parted rest (.blank blank) (d :: cs)
  simp only [List.cons_append] at scanned
  simp only [endsJunk, List.cons_append, scanned, Option.isSome_map]

theorem splitJunk_parted (cs : List Char) :
    splitJunk (cs ++ c :: rest) = ((splitJunk cs).1, (splitJunk cs).2 ++ c :: rest) := by
  induction cs with
  | nil =>
    have ends : endsJunk (c :: rest) = true := by simp [endsJunk, blank]
    simp [splitJunk, ends]
  | cons d cs ih =>
    have same := endsJunk_parted blank rest d cs
    rw [List.cons_append] at same ⊢
    rw [splitJunk, splitJunk, same]
    split
    · rfl
    · simp only [ih]

theorem scan_parted {d : Char} (clear : d ≠ '(') (cs : List Char) :
    scan d (cs ++ c :: rest) = ((scan d cs).1, (scan d cs).2 ++ c :: rest) := by
  have scanned := Word.scan?_parted rest (.blank blank) (d :: cs)
  rw [List.cons_append] at scanned
  simp only [scan, scanned, splitJunk_parted blank, if_neg clear]
  split
  · rfl
  · cases Word.scan? (d :: cs) <;> rfl

/-- What stands before a blank is taken apart without looking at what stands behind it, unless a
parenthesis is open. -/
theorem split_parted {cs : List Char} (clear : '(' ∉ cs) :
    split (cs ++ c :: rest) = split cs ++ .blank c :: split rest := by
  fun_induction split cs with
  | case1 =>
    have scanned : scan c rest = (.blank c, rest) := if_pos blank
    rw [List.nil_append, split, scanned]
    rfl
  | case2 d cs ih =>
    obtain ⟨first, later⟩ := not_or.mp (mt List.mem_cons.mpr clear)
    have kept : '(' ∉ (scan d cs).2 := by
      intro member
      have whole := scan_append d cs
      exact clear (whole ▸ List.mem_append_right _ member)
    rw [List.cons_append, split, scan_parted blank rest (Ne.symm first), ih kept]
    rfl

end Piece

/-! Fields. -/

/-- A text that neither a blank nor the beginning of a comment breaks. -/
structure Solid (cs : List Char) : Prop where
  nonempty : cs ≠ []
  visible : ∀ c ∈ cs, Text.isBlank c = false
  plain : ∀ c ∈ cs, c ∉ ['(', ';', '%']

/-- Fields with single blanks between them. -/
def fieldsText (first : List Char) (rest : List (List Char)) : List Char :=
  first ++ rest.flatMap (' ' :: ·)

section
variable {first : List Char} {rest : List (List Char)} (fields : ∀ f ∈ first :: rest, Solid f)

theorem fieldsText_cons (first second : List Char) (rest : List (List Char)) :
    fieldsText first (second :: rest) = first ++ ' ' :: fieldsText second rest := by
  simp [fieldsText]

theorem Solid.last {f : List Char} (solid : Solid f) :
    ∃ front last, f = front ++ [last] ∧ Text.isBlank last = false :=
  ⟨f.dropLast, f.getLast solid.nonempty, (List.dropLast_append_getLast solid.nonempty).symm,
    solid.visible _ (List.getLast_mem solid.nonempty)⟩

include fields

theorem fieldsText_last :
    ∃ front last, fieldsText first rest = front ++ [last] ∧ Text.isBlank last = false := by
  induction rest generalizing first with
  | nil => simpa [fieldsText] using (fields first List.mem_cons_self).last
  | cons second rest ih =>
    obtain ⟨front, last, shape, visible⟩ := ih (List.forall_mem_of_forall_mem_cons fields)
    exact ⟨first ++ ' ' :: front, last, by simp [fieldsText_cons, shape], visible⟩

theorem mem_fieldsText {c : Char} (member : c ∈ fieldsText first rest) : c ∉ ['(', ';', '%'] := by
  rcases List.mem_append.mp member with inside | later
  · exact (fields first List.mem_cons_self).plain c inside
  · obtain ⟨f, among, inside⟩ := List.mem_flatMap.mp later
    rcases List.mem_cons.mp inside with rfl | inside
    · decide
    · exact (fields f (List.mem_cons_of_mem _ among)).plain c inside

theorem newline_not_mem_fieldsText : '\n' ∉ fieldsText first rest := by
  have clear (f : List Char) (among : f ∈ first :: rest) : '\n' ∉ f := fun member =>
    absurd ((fields f among).visible _ member) (by decide)
  intro member
  rcases List.mem_append.mp member with inside | later
  · exact clear first List.mem_cons_self inside
  · obtain ⟨f, among, inside⟩ := List.mem_flatMap.mp later
    rcases List.mem_cons.mp inside with same | inside
    · cases same
    · exact clear f (List.mem_cons_of_mem _ among) inside

theorem trim_fieldsText : Text.trim (fieldsText first rest) = fieldsText first rest := by
  obtain ⟨front, last, shape, visible⟩ := fieldsText_last fields
  have solid := fields first List.mem_cons_self
  obtain ⟨c, more, rfl⟩ := List.exists_cons_of_ne_nil solid.nonempty
  exact Text.trim_eq (solid.visible c List.mem_cons_self) visible shape

theorem isCommentLine_fieldsText : isCommentLine (fieldsText first rest) = false := by
  rw [Bool.eq_false_iff, ne_eq, isCommentLine_iff]
  rintro ⟨c, opens, head⟩
  exact mem_fieldsText fields (List.mem_of_head? head) opens

/-- The whole line is code. -/
theorem takeWhile_fieldsText :
    (fieldsText first rest).takeWhile (· != ';') = fieldsText first rest := by
  refine List.takeWhile_eq_self_iff.mpr fun c member => bne_iff_ne.mpr ?_
  rintro rfl
  exact absurd (mem_fieldsText fields member) (by decide)

theorem split_fieldsText : Piece.split (fieldsText first rest) =
    Piece.split first ++ rest.flatMap (.blank ' ' :: Piece.split ·) := by
  induction rest generalizing first with
  | nil => simp [fieldsText]
  | cons second rest ih =>
    have clear : '(' ∉ first := fun member =>
      absurd ((fields first List.mem_cons_self).plain _ member) (by decide)
    rw [fieldsText_cons, Piece.split_parted rfl _ clear,
      ih (List.forall_mem_of_forall_mem_cons fields), List.flatMap_cons, List.cons_append]

/-- The words of the line are those of its fields. -/
theorem words_fieldsText : words (fieldsText first rest) =
    (first :: rest).flatMap fun f => (Piece.split f).filterMap Piece.word? := by
  have code : isCommentLine (Text.trim (fieldsText first rest)) = false := by
    rw [trim_fieldsText fields, isCommentLine_fieldsText fields]
  rw [words_of_code code, trim_fieldsText fields, takeWhile_fieldsText fields,
    split_fieldsText fields, List.filterMap_append, List.filterMap_flatMap]
  rfl

/-- Only the first field may hold words behind this letter. -/
theorem given_fieldsText {letter : Char}
    (others : ∀ f ∈ rest, ∀ w ∈ (Piece.split f).filterMap Piece.word?, w.letter ≠ letter) :
    given letter (fieldsText first rest) = ((Piece.split first).filterMap Piece.word?).filterMap
      fun w => if w.letter = letter then finite? w.number else none := by
  rw [given, words_fieldsText fields, List.flatMap_cons, List.filterMap_append,
    List.append_right_eq_self, List.filterMap_eq_nil_iff]
  intro w member
  obtain ⟨f, among, inside⟩ := List.mem_flatMap.mp member
  exact if_neg (others f among w inside)

/-- Nothing is left out of a line of fields exactly if nothing is of its fields. -/
theorem tokenDiagnostics_fieldsText_iff (number : Int) :
    tokenDiagnostics number (fieldsText first rest) = [] ↔
      ∀ f ∈ first :: rest, ∀ p ∈ Piece.split f, p.Legal := by
  have trimmed := trim_fieldsText fields
  have code : isCommentLine (Text.trim (fieldsText first rest)) = false := by
    rw [trimmed, isCommentLine_fieldsText fields]
  rw [tokenDiagnostics_silent_iff number code, trimmed, takeWhile_fieldsText fields,
    split_fieldsText fields]
  constructor
  · intro legal f member p inside
    rcases List.mem_cons.mp member with rfl | later
    · exact legal p (List.mem_append_left _ inside)
    · exact legal p (List.mem_append_right _
        (List.mem_flatMap.mpr ⟨f, later, List.mem_cons_of_mem _ inside⟩))
  · intro legal p member
    rcases List.mem_append.mp member with inside | later
    · exact legal first List.mem_cons_self p inside
    · obtain ⟨f, among, inside⟩ := List.mem_flatMap.mp later
      rcases List.mem_cons.mp inside with rfl | inside
      · exact .blank rfl
      · exact legal f (List.mem_cons_of_mem _ among) p inside

theorem legal_of_unreported {number : Int}
    (silent : (Block.ofLine number (fieldsText first rest)).2 = []) {f : List Char}
    (member : f ∈ first :: rest) : ∀ p ∈ Piece.split f, p.Legal :=
  (tokenDiagnostics_fieldsText_iff fields number).mp
    ((Block.ofLine_silent_iff number _).mp silent).1 f member

end

/-! The fields of a motion to a point. -/

theorem Solid.of_bounds {cs : List Char} (nonempty : cs ≠ [])
    (bounds : ∀ c ∈ cs, 45 ≤ c.toNat ∧ c.toNat ≤ 122 ∧ c.toNat ≠ 59) : Solid cs where
  nonempty := nonempty
  visible c member := isBlank_of_bounds (by have := bounds c member; omega)
    (by have := bounds c member; omega)
  plain c member := by
    have bound := bounds c member
    rintro opens
    simp only [List.mem_cons, List.not_mem_nil, or_false] at opens
    rcases opens with rfl | rfl | rfl <;> exact absurd bound (by decide)

theorem WrittenWord.solid (w : WrittenWord) : Solid w.text := by
  refine .of_bounds (List.cons_ne_nil _ _) fun c member => ?_
  rcases List.mem_cons.mp member with rfl | inside
  · have bounds := capital_bounds w.capital
    omega
  · have bounds := isNumeric_bounds (Numeral.isNumeric_of_mem inside)
    omega

theorem WrittenWord.split_text (w : WrittenWord) : Piece.split w.text = [.word w.word] := by
  have whole := split_wordsText w [] 0
  simpa [wordsText, wordPieces] using whole

theorem split_junk {c : Char} {rest : List Char}
    (scanned : Piece.scan c rest = (.junk (c :: rest), [])) :
    Piece.split (c :: rest) = [.junk (c :: rest)] := by
  rw [Piece.split, scanned, Piece.split]

/-- What a coordinate that is not finite is written as. -/
theorem coordinate_notFinite (places : Nat) {x : Float} (notFinite : isFinite x = false) :
    coordinate places x = ['n', 'a', 'n'] ∨ coordinate places x = ['i', 'n', 'f'] ∨
      coordinate places x = ['-', 'i', 'n', 'f'] := by
  unfold isFinite at notFinite
  unfold coordinate fixed
  cases decoded : ofFloat x with
  | nan => simp
  | infinite negative => cases negative <;> simp [signed]
  | finite negative units => simp [decoded] at notFinite

/-- No word is read from it. -/
theorem scan_notFinite (places : Nat) {letter : Char} (axis : letter = 'X' ∨ letter = 'Y')
    {x : Float} (notFinite : isFinite x = false) :
    Piece.scan letter (coordinate places x) = (.junk (letter :: coordinate places x), []) ∧
      Solid (letter :: coordinate places x) := by
  have written := coordinate_notFinite places notFinite
  generalize coordinate places x = text at written ⊢
  rcases axis with rfl | rfl <;> rcases written with rfl | rfl | rfl <;>
    exact ⟨rfl, .of_bounds (List.cons_ne_nil _ _) (by simp)⟩

/-- The field of a coordinate is a word if the coordinate is finite, and junk otherwise. -/
theorem split_coordinate (places : Nat) {letter : Char} (axis : letter = 'X' ∨ letter = 'Y')
    (x : Float) : ∃ p, Piece.split (letter :: coordinate places x) = [p] ∧
      Solid (letter :: coordinate places x) ∧ (p.Legal → isFinite x = true) ∧
      ∀ w ∈ p.word?, w.letter = letter := by
  cases finite : isFinite x with
  | true =>
    obtain ⟨n, text, -, good⟩ := exists_coordinate places finite
    have capital : letter.isUpper = true := by rcases axis with rfl | rfl <;> rfl
    let w : WrittenWord := ⟨letter, capital, n, good⟩
    rw [text]
    refine ⟨.word w.word, w.split_text, w.solid, fun _ => rfl, ?_⟩
    rintro _ ⟨⟩
    rfl
  | false =>
    obtain ⟨scanned, solid⟩ := scan_notFinite places axis finite
    refine ⟨_, split_junk scanned, solid, ?_, ?_⟩
    · rintro ⟨⟩
    · rintro _ ⟨⟩

section
variable (places : Nat) (kind : MoveKind) (x y : Float) (ws : List WrittenWord)

/-- The line of a motion to a point, be its coordinates finite or not, with more words behind. -/
def pointLine : List Char :=
  fieldsText (moveWord kind).text
    (('X' :: coordinate places x) :: ('Y' :: coordinate places y) :: ws.map WrittenWord.text)

theorem pointLine_eq : pointLine places kind x y ws =
    kind.word.toList ++ ' ' :: pointWords places x y ++ ws.flatMap fun w => ' ' :: w.text := by
  rw [pointLine, fieldsText, moveWord_text]
  simp [pointWords, List.flatMap_map]

theorem pointLine_fields : ∀ f ∈ (moveWord kind).text :: ('X' :: coordinate places x) ::
    ('Y' :: coordinate places y) :: ws.map WrittenWord.text, Solid f := by
  obtain ⟨-, -, solidX, -⟩ := split_coordinate places (.inl rfl) x
  obtain ⟨-, -, solidY, -⟩ := split_coordinate places (.inr rfl) y
  simp only [List.forall_mem_cons, List.forall_mem_map]
  exact ⟨(moveWord kind).solid, solidX, solidY, fun w _ => w.solid⟩

/-- Its first word is its only command. -/
theorem given_pointLine (others : ∀ w ∈ ws, w.letter ≠ 'G') :
    given 'G' (pointLine places kind x y ws) = [(moveWord kind).number.value] := by
  obtain ⟨p, splitX, -, -, letterX⟩ := split_coordinate places (.inl rfl) x
  obtain ⟨q, splitY, -, -, letterY⟩ := split_coordinate places (.inr rfl) y
  have behind : ∀ f ∈ ('X' :: coordinate places x) :: ('Y' :: coordinate places y) ::
      ws.map WrittenWord.text, ∀ w ∈ (Piece.split f).filterMap Piece.word?, w.letter ≠ 'G' := by
    simp only [List.forall_mem_cons, List.forall_mem_map, splitX, splitY, WrittenWord.split_text,
      List.mem_filterMap, List.mem_singleton, exists_eq_left]
    refine ⟨fun w read => ?_, fun w read => ?_, fun v member w read => ?_⟩
    · rw [letterX w read]
      decide
    · rw [letterY w read]
      decide
    · obtain rfl := Option.some.inj read
      exact others v member
  have command : finite? (moveWord kind).word.number = some (moveWord kind).number.value :=
    finite?_eq_some_iff.mpr ⟨(moveWord kind).number.float?_text, (moveWord kind).finite⟩
  have letter : (moveWord kind).word.letter = 'G' := by cases kind <;> rfl
  rw [pointLine, given_fieldsText (pointLine_fields places kind x y ws) behind,
    WrittenWord.split_text]
  simp only [List.filterMap_cons, List.filterMap_nil, Piece.word?, letter, if_true, command]

theorem motion?_pointLine (others : ∀ w ∈ ws, w.letter ≠ 'G') :
    motion? (pointLine places kind x y ws) = some kind := by
  have codes := given_pointLine places kind x y ws others
  let b : Block := ⟨1, given 'G' (pointLine places kind x y ws), none, none, none, 0⟩
  exact (kind?_eq (b := b) _ rfl).symm.trans (kind?_of_moveWord codes).1

/-- If nothing is reported about it then the point is finite. -/
theorem finite_of_unreported {number : Int}
    (silent : (Block.ofLine number (pointLine places kind x y ws)).2 = []) :
    isFinite x = true ∧ isFinite y = true := by
  have legal {f : List Char} := @legal_of_unreported _ _ (pointLine_fields places kind x y ws) _
    silent f
  obtain ⟨p, splitX, -, finiteX, -⟩ := split_coordinate places (.inl rfl) x
  obtain ⟨q, splitY, -, finiteY, -⟩ := split_coordinate places (.inr rfl) y
  have legalX := legal (List.mem_cons_of_mem _ List.mem_cons_self)
  have legalY := legal (List.mem_cons_of_mem _ (List.mem_cons_of_mem _ List.mem_cons_self))
  rw [splitX] at legalX
  rw [splitY] at legalY
  exact ⟨finiteX (legalX p List.mem_cons_self), finiteY (legalY q List.mem_cons_self)⟩

end

end Toolpath.Gcode
