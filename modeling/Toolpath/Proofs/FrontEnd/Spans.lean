import Mathlib
import Toolpath.FrontEnd.Highlight
import Toolpath.Proofs.Gcode.Places

/-! Spans of looks over a line. The last span laid over a place gives its look. The words that colouring
finds, comments included, are the word pieces of the code and words inside its comments, and the
comments that it finds are the comment pieces: no word and no comment reaches over the end of its
piece. -/
namespace Toolpath

def TextSpan.Covers (span : TextSpan) (place : Nat) : Prop :=
  span.start ≤ place ∧ place < span.start + span.count

instance (span : TextSpan) (place : Nat) : Decidable (span.Covers place) :=
  inferInstanceAs (Decidable (_ ∧ _))

namespace Highlight
open Gcode

/-- The look of a place: the last span laid over it gives it. -/
def lookAt (spans : List TextSpan) (place : Nat) : Option TextLook :=
  spans.reverse.findSome? fun span => if span.Covers place then some span.look else none

section
variable {spans : List TextSpan} {place : Nat}

theorem lookAt_append (below above : List TextSpan) (place : Nat) :
    lookAt (below ++ above) place = (lookAt above place).or (lookAt below place) := by
  rw [lookAt, List.reverse_append, List.findSome?_append]
  rfl

theorem lookAt_cons (span : TextSpan) (above : List TextSpan) (place : Nat) :
    lookAt (span :: above) place =
      (lookAt above place).or (if span.Covers place then some span.look else none) := by
  rw [← List.singleton_append, lookAt_append]
  congr 1
  simp [lookAt]

theorem lookAt_eq_none (bare : ∀ span ∈ spans, ¬ span.Covers place) : lookAt spans place = none := by
  rw [lookAt, List.findSome?_eq_none_iff]
  exact fun span member => if_neg (bare span (List.mem_reverse.mp member))

theorem exists_of_lookAt {look : TextLook} (laid : lookAt spans place = some look) :
    ∃ span ∈ spans, span.Covers place ∧ span.look = look := by
  obtain ⟨span, member, covers⟩ := List.exists_of_findSome?_eq_some laid
  split at covers
  · rename_i here
    exact ⟨span, List.mem_reverse.mp member, here, Option.some.inj covers⟩
  · cases covers

theorem lookAt_of_covers {span : TextSpan} (member : span ∈ spans) (covers : span.Covers place) :
    ∃ look, lookAt spans place = some look := by
  rw [← Option.isSome_iff_exists, lookAt, List.findSome?_isSome_iff]
  exact ⟨span, List.mem_reverse.mpr member, by rw [if_pos covers]; rfl⟩

/-- Where each piece is given spans within it, the look of a place is found at its piece. -/
theorem lookAt_placed {f : Nat × Piece → List TextSpan}
    (within : ∀ found, ∀ span ∈ f found,
      found.1 ≤ span.start ∧ span.start + span.count ≤ found.1 + found.2.length)
    (start : Nat) (ps : List Piece) (place : Nat) :
    lookAt ((Piece.placed start ps).flatMap f) place =
      (Piece.at? start ps place).bind fun found => lookAt (f found) place := by
  induction ps generalizing start with
  | nil => rfl
  | cons p ps ih =>
    rw [Piece.placed, List.flatMap_cons, lookAt_append, Piece.at?, Piece.placed, List.find?_cons]
    by_cases here : Piece.Covers place (start, p)
    · have later : lookAt ((Piece.placed (start + p.length) ps).flatMap f) place = none := by
        refine lookAt_eq_none fun span member covers => ?_
        obtain ⟨found, placed, given⟩ := List.mem_flatMap.mp member
        have behind := Piece.start_le placed
        have inside := within found span given
        have ahead := here.2
        have reached := covers.1
        dsimp only at *
        omega
      simp [here, later]
    · have first : lookAt (f (start, p)) place = none := by
        refine lookAt_eq_none fun span member covers => here ?_
        have inside := within _ span member
        exact ⟨inside.1.trans covers.1, covers.2.trans_le inside.2⟩
      rw [ih, first, Option.or_none, decide_eq_false here]
      rfl

end

/-! The words that colouring finds. -/

section
variable {cs rest : List Char} {position : Nat}

theorem words_scanned {w : Word} (scanned : Word.scan? cs = some (w, rest)) (position : Nat) :
    words position cs = (position, w) :: words (position + w.text.length) rest := by
  cases cs with
  | nil => cases scanned
  | cons c cs =>
    rw [words]
    split
    · rename_i again
      rw [scanned] at again
      cases again
      rfl
    · rename_i none
      rw [scanned] at none
      cases none

theorem words_skipped {c : Char} (none : Word.scan? (c :: rest) = none) (position : Nat) :
    words position (c :: rest) = words (position + 1) rest := by
  rw [words]
  split
  · rename_i some
    rw [none] at some
    cases some
  · rfl

theorem scan?_of_parts {c : Char} (parts : Parts c) (rest : List Char) :
    Word.scan? (c :: rest) = none := Word.scan?_parted rest parts []

theorem words_parted {c : Char} (parts : Parts c) (rest : List Char) (position : Nat)
    (cs : List Char) : words position (cs ++ c :: rest) =
      words position cs ++ words (position + cs.length + 1) rest := by
  fun_induction words position cs with
  | case1 position => exact words_skipped (scan?_of_parts parts rest) position
  | case2 position d cs w after scanned ih =>
    have further := Word.scan?_parted rest parts (d :: cs)
    rw [scanned] at further
    have length := congrArg List.length (Word.scan?_append scanned)
    rw [List.length_append] at length
    rw [words_scanned further, ih, List.cons_append]
    congr 3
    omega
  | case3 position d cs none ih =>
    have further := Word.scan?_parted rest parts (d :: cs)
    rw [none] at further
    have skipped : words position (d :: cs ++ c :: rest) = words (position + 1) (cs ++ c :: rest) :=
      words_skipped further position
    rw [skipped, ih, List.length_cons]
    congr 2
    omega

theorem words_blanks {blanks : List Char} (all : ∀ c ∈ blanks, Text.isBlank c = true)
    (position : Nat) (cs : List Char) :
    words position (blanks ++ cs) = words (position + blanks.length) cs := by
  induction blanks generalizing position with
  | nil => rfl
  | cons c blanks ih =>
    have parts := Parts.blank (all c List.mem_cons_self)
    rw [List.cons_append, words_skipped (scan?_of_parts parts _),
      ih (List.forall_mem_of_forall_mem_cons all), List.length_cons]
    congr 1
    omega

theorem words_append_blanks {blanks : List Char} (all : ∀ c ∈ blanks, Text.isBlank c = true)
    (position : Nat) (cs : List Char) : words position (cs ++ blanks) = words position cs := by
  cases blanks with
  | nil => rw [List.append_nil]
  | cons c blanks =>
    have silent (position : Nat) : words position blanks = [] := by
      have passed := words_blanks (List.forall_mem_of_forall_mem_cons all) position []
      rwa [List.append_nil, words] at passed
    rw [words_parted (Parts.blank (all c List.mem_cons_self)), silent, List.append_nil]

theorem words_within {found : Nat × Word} (member : found ∈ words position cs) :
    position ≤ found.1 ∧ found.1 + found.2.text.length ≤ position + cs.length := by
  fun_induction words position cs with
  | case1 => cases member
  | case2 position c cs w after scanned ih =>
    have length := congrArg List.length (Word.scan?_append scanned)
    rw [List.length_append] at length
    rcases List.mem_cons.mp member with rfl | later
    · exact ⟨le_rfl, by dsimp only; omega⟩
    · have beyond := ih later
      omega
  | case3 position c cs none ih =>
    have beyond := ih member
    rw [List.length_cons]
    omega

/-- The words that colouring finds in a piece. -/
def pieceWords : Nat × Piece → List (Nat × Word)
  | (start, .word w) => [(start, w)]
  | (start, .comment text _) => words (start + 1) text
  | (_, .blank _) => []
  | (_, .junk _) => []

theorem words_splitJunk (position : Nat) (cs : List Char) :
    words position cs =
      words (position + (Piece.splitJunk cs).1.length) (Piece.splitJunk cs).2 := by
  induction cs generalizing position with
  | nil => rfl
  | cons c rest ih =>
    rw [Piece.splitJunk]
    split
    · rfl
    · rename_i junk
      have none : Word.scan? (c :: rest) = none := by
        rw [← Option.not_isSome_iff_eq_none]
        intro some
        exact junk (by simp [Piece.endsJunk, some])
      rw [words_skipped none, ih, List.length_cons]
      congr 1
      omega

theorem words_scan (position : Nat) (c : Char) (rest : List Char) :
    words position (c :: rest) = pieceWords (position, (Piece.scan c rest).1) ++
      words (position + (Piece.scan c rest).1.length) (Piece.scan c rest).2 := by
  unfold Piece.scan
  split
  · rename_i blank
    exact words_skipped (scan?_of_parts (.blank blank) rest) position
  · split
    · rename_i opening
      subst opening
      have none : Word.scan? ('(' :: rest) = none := rfl
      rw [words_skipped none]
      by_cases closing : ')' ∈ rest
      · obtain ⟨inner, after, rfl, clear⟩ := List.eq_append_cons_of_mem closing
        rw [Piece.scanComment_closed clear, words_parted .close]
        simp only [pieceWords, Piece.length, Piece.text, if_true, List.length_append,
          List.length_cons, List.length_nil]
        congr 2
        omega
      · rw [Piece.scanComment_open closing, words, List.append_nil]
        rfl
    · split
      · rename_i scanned
        exact words_scanned scanned position
      · rename_i none
        rw [words_skipped none, words_splitJunk]
        simp only [pieceWords, Piece.length, Piece.text, List.length_cons, List.nil_append]
        congr 1
        omega

theorem words_split (position : Nat) (cs : List Char) :
    words position cs = (Piece.placed position (Piece.split cs)).flatMap pieceWords := by
  fun_induction Piece.split cs generalizing position with
  | case1 => rw [words]; rfl
  | case2 c rest ih => rw [words_scan, ih]; rfl

/-! The comments that colouring finds. -/

def pieceComments : Nat × Piece → List TextSpan
  | (start, .comment text closed) => [⟨start, (Piece.comment text closed).length, commentLook⟩]
  | (_, .blank _) => []
  | (_, .word _) => []
  | (_, .junk _) => []

theorem commentSpans_opening (position : Nat) (rest : List Char) :
    commentSpans position ('(' :: rest) =
      pieceComments (position, (Piece.scanComment rest).1) ++
        commentSpans (position + (Piece.scanComment rest).1.length) (Piece.scanComment rest).2 := by
  rw [commentSpans, if_pos rfl, Piece.scanComment]
  split <;> rfl

theorem commentSpans_skipped {front : List Char} (clear : '(' ∉ front) (position : Nat)
    (rest : List Char) :
    commentSpans position (front ++ rest) = commentSpans (position + front.length) rest := by
  induction front generalizing position with
  | nil => rfl
  | cons c front ih =>
    rw [List.cons_append, commentSpans, if_neg (List.ne_of_not_mem_cons clear).symm,
      ih (List.not_mem_of_not_mem_cons clear), List.length_cons]
    congr 1
    omega

theorem splitJunk_clear (cs : List Char) : '(' ∉ (Piece.splitJunk cs).1 := by
  induction cs with
  | nil => exact List.not_mem_nil
  | cons c rest ih =>
    rw [Piece.splitJunk]
    split
    · exact List.not_mem_nil
    · rename_i junk
      have other : '(' ≠ c := by
        rintro rfl
        exact junk (by simp [Piece.endsJunk])
      exact List.not_mem_cons_of_ne_of_not_mem other ih

theorem commentSpans_scan (position : Nat) (c : Char) (rest : List Char) :
    commentSpans position (c :: rest) = pieceComments (position, (Piece.scan c rest).1) ++
      commentSpans (position + (Piece.scan c rest).1.length) (Piece.scan c rest).2 := by
  by_cases opening : c = '('
  · subst opening
    exact commentSpans_opening position rest
  · have whole := Piece.scan_append c rest
    have clear : '(' ∉ (Piece.scan c rest).1.text ∧
        pieceComments (position, (Piece.scan c rest).1) = [] := by
      unfold Piece.scan
      split
      · exact ⟨by simpa [Piece.text] using Ne.symm opening, rfl⟩
      · split
        · rename_i scanned
          exact ⟨(Word.scan?_sound scanned).clear (.opening List.mem_cons_self), rfl⟩
        · exact ⟨List.not_mem_cons_of_ne_of_not_mem (Ne.symm opening) (splitJunk_clear rest), rfl⟩
    conv_lhs => rw [← whole]
    rw [commentSpans_skipped clear.1, clear.2]
    rfl

theorem commentSpans_split (position : Nat) (cs : List Char) :
    commentSpans position cs = (Piece.placed position (Piece.split cs)).flatMap pieceComments := by
  fun_induction Piece.split cs generalizing position with
  | case1 => rw [commentSpans]; rfl
  | case2 c rest ih => rw [commentSpans_scan, ih]; rfl

theorem commentSpans_look {span : TextSpan} (member : span ∈ commentSpans position cs) :
    span.look = commentLook := by
  rw [commentSpans_split] at member
  obtain ⟨⟨start, p⟩, _, given⟩ := List.mem_flatMap.mp member
  cases p with
  | comment text closed => rw [List.mem_singleton.mp given]
  | blank c => cases given
  | word w => cases given
  | junk text => cases given

/-- A comment that is not closed reaches over the blanks behind the code, and nothing else does. -/
theorem lookAt_commentSpans_blanks {blanks : List Char}
    (all : ∀ c ∈ blanks, Text.isBlank c = true) {position place : Nat} {cs : List Char}
    (inside : place < position + cs.length) :
    lookAt (commentSpans position (cs ++ blanks)) place =
      lookAt (commentSpans position cs) place := by
  have open' : '(' ∉ blanks := fun member => absurd (all _ member) (by decide)
  have close : ∀ c ∈ blanks, (c != ')') = true := by
    intro c member
    rw [bne_iff_ne]
    rintro rfl
    exact absurd (all _ member) (by decide)
  fun_induction commentSpans position cs with
  | case1 position =>
    have skipped := commentSpans_skipped open' position []
    rw [List.append_nil] at skipped
    rw [List.nil_append, skipped]
    simp only [commentSpans]
  | case2 position rest length ih =>
    rw [List.cons_append, commentSpans_opening]
    by_cases closing : ')' ∈ rest
    · obtain ⟨inner, after, rfl, clear⟩ := List.eq_append_cons_of_mem closing
      simp only [length, Piece.scanComment_closed clear] at ih ⊢
      rw [List.append_assoc, List.cons_append, Piece.scanComment_closed clear]
      simp only [pieceComments, List.singleton_append, lookAt_cons]
      rw [ih (by simp [Piece.length, Piece.text] at inside ⊢; omega)]
    · have further : ')' ∉ rest ++ blanks := by
        simpa [closing] using fun member => absurd (all _ member) (by decide)
      simp only [length, Piece.scanComment_open closing, Piece.scanComment_open further,
        pieceComments, List.singleton_append, lookAt_cons, commentSpans]
      congr 1
      refine if_congr ?_ rfl rfl
      simp [TextSpan.Covers, Piece.length, Piece.text] at inside ⊢
      omega
  | case3 position c rest other ih =>
    rw [List.cons_append, commentSpans, if_neg other]
    exact ih (by rw [List.length_cons] at inside; omega)

end

end Highlight

end Toolpath
