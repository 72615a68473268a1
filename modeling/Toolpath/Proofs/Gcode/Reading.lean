import Mathlib
import Toolpath.Gcode.Program
import Toolpath.Proofs.Gcode.Lexing

/-! What a written program does when it is read. Each of its lines has an effect, a motion or none,
and the program is the run of these effects over the modal values; nothing is reported. -/
namespace Toolpath.Gcode
open Decimal

namespace Block

/-- The block after one more word. -/
def give (b : Block) (w : WrittenWord) : Block :=
  match w.kind with
  | .g => { b with gCodes := b.gCodes ++ [w.number.value] }
  | .x => { b with x := some w.number.value }
  | .y => { b with y := some w.number.value }
  | .f => { b with f := some w.number.value }
  | .other | .comment => b

/-- Whether the block takes a word without a report. -/
def Admits (b : Block) (w : WrittenWord) : Prop :=
  match w.kind with
  | .x => b.x = none
  | .y => b.y = none
  | .f => b.f = none ∧ ¬ w.number.value < 0
  | .g | .other | .comment => True

def giveAll (b : Block) (ws : List WrittenWord) : Block := ws.foldl give b

def AdmitsAll (b : Block) : List WrittenWord → Prop
  | [] => True
  | w :: ws => b.Admits w ∧ (b.give w).AdmitsAll ws

variable {b : Block}

theorem take_content {t : Token} {w : WrittenWord} (same : t.content = w.content)
    (admits : b.Admits w) :
    b.take t = (b.give w, []) := by
  obtain ⟨kind, value⟩ := Prod.mk.inj same
  have number : t.number? = some w.number.value := by
    rw [Token.number?, value]
    exact finite?_eq_some_iff.mpr ⟨w.number.float?_text, w.finite⟩
  unfold take takeValue
  unfold give
  unfold Admits at admits
  rw [kind, number]
  cases shape : w.kind with
  | g | other | comment => rfl
  | x =>
    rw [shape] at admits
    simp only [fill, admits]
  | y =>
    rw [shape] at admits
    simp only [fill, admits]
  | f =>
    rw [shape] at admits
    simp only [fill, admits.1, if_neg admits.2]

theorem takeAll_content {ts : List Token} {ws : List WrittenWord}
    (same : ts.map Token.content = ws.map WrittenWord.content) (admits : b.AdmitsAll ws) :
    b.takeAll ts = (b.giveAll ws, []) := by
  induction ws generalizing b ts with
  | nil =>
    rw [List.map_nil, List.map_eq_nil_iff] at same
    subst same
    rfl
  | cons w ws ih =>
    cases ts with
    | nil => cases same
    | cons t ts =>
      obtain ⟨first, rest⟩ := List.cons.inj same
      rw [takeAll, take_content first admits.1]
      simp only [ih rest admits.2]
      rfl

theorem takeAll_comments {ts : List Token} (comments : ∀ t ∈ ts, t.kind = .comment) :
    b.takeAll ts = (b, []) := by
  induction ts with
  | nil => rfl
  | cons t ts ih =>
    have skipped : b.take t = (b, []) := by rw [take, comments t List.mem_cons_self]
    rw [takeAll, skipped]
    simp only [ih fun u member => comments u (List.mem_cons_of_mem _ member)]
    rfl

theorem takeAll_append (ts us : List Token) :
    b.takeAll (ts ++ us) =
      (((b.takeAll ts).1.takeAll us).1, (b.takeAll ts).2 ++ ((b.takeAll ts).1.takeAll us).2) := by
  induction ts generalizing b with
  | nil => rfl
  | cons t ts ih => simp only [List.cons_append, takeAll, ih, List.append_assoc]

theorem ofLetter_ne_comment (letter : Char) : TokenKind.ofLetter letter ≠ .comment := by
  unfold TokenKind.ofLetter
  repeat' split
  all_goals simp

/-- The block of a line before its words are taken. -/
def empty (number : Int) (tokenCount : Nat) : Block := ⟨number, [], none, none, none, tokenCount⟩

/-- A line of words gives the block that takes them in order. -/
theorem ofLine_words (number : Int) (w : WrittenWord) (ws : List WrittenWord) {tail : List Char}
    (allowed : Tail tail) (admits : ∀ tokenCount, (empty number tokenCount).AdmitsAll (w :: ws)) :
    ∃ tokenCount,
      ofLine number (wordsText w ws ++ tail) = (some ((empty number tokenCount).giveAll (w :: ws)),
        ((empty number tokenCount).giveAll (w :: ws)).bothDiagnostic?) := by
  obtain ⟨ts, comments, shape, same, trailing⟩ := tokens_line number w ws allowed
  have silent := tokenDiagnostics_line number w ws allowed
  have words : (ts ++ comments).all (·.kind == .comment) = false := by
    rw [List.all_append]
    cases ts with
    | nil => cases same
    | cons t ts =>
      have kind : t.kind = w.kind := (Prod.mk.inj (List.cons.inj same).1).1
      simp [kind, WrittenWord.kind, ofLetter_ne_comment]
  refine ⟨(ts ++ comments).length, ?_⟩
  unfold ofLine
  simp only [shape, words, Bool.false_eq_true, if_false, silent, takeAll_append]
  have taken := @takeAll_content (empty number (ts ++ comments).length) ts (w :: ws) same (admits _)
  unfold empty at taken
  rw [taken]
  simp only [takeAll_comments trailing, List.nil_append]
  rfl

end Block

/-- What a line does: nothing, or a motion with the values that it gives. -/
inductive Effect where
  | silent
  | motion (kind : MoveKind) (x y feed : Option Float)

/-- A rapid move that gives no value. -/
def Effect.hold : Effect := .motion .rapid none none none

/-- The rapid move to the origin. -/
def Effect.home : Effect := .motion .rapid (some 0) (some 0) none

/-- The block of a line has this effect. -/
def Effect.Of (number : Int) (b? : Option Block) : Effect → Prop
  | .silent => ∀ b ∈ b?, b.kind? = none
  | .motion kind x y feed =>
    ∃ b, b? = some b ∧ b.line = number ∧ b.kind? = some kind ∧ b.x = x ∧ b.y = y ∧ b.f = feed

/-- A line has an effect wherever it stands, and nothing is reported about it. -/
def HasEffect (line : List Char) (effect : Effect) : Prop :=
  ∀ number, (Block.ofLine number line).2 = [] ∧ effect.Of number (Block.ofLine number line).1

theorem hasEffect_words {w : WrittenWord} {ws : List WrittenWord} {tail : List Char}
    {effect : Effect} (allowed : Tail tail)
    (admits : ∀ number count, (Block.empty number count).AdmitsAll (w :: ws))
    (result : ∀ number count,
      ((Block.empty number count).giveAll (w :: ws)).bothDiagnostic? = [] ∧
        effect.Of number (some ((Block.empty number count).giveAll (w :: ws)))) :
    HasEffect (wordsText w ws ++ tail) effect := by
  intro number
  obtain ⟨count, eq⟩ := Block.ofLine_words number w ws allowed (admits number)
  rw [eq]
  exact result number count

theorem hasEffect_blank : HasEffect [] .silent := by
  intro number
  refine ⟨rfl, ?_⟩
  rintro b ⟨⟩

/-- A line that begins as a comment is nothing else. -/
theorem hasEffect_comment {c : Char} (opens : c = '(' ∨ c = ';' ∨ c = '%') (rest : List Char) :
    HasEffect (c :: rest) .silent := by
  have visible : Text.isBlank c = false := by rcases opens with rfl | rfl | rfl <;> decide
  have comment (text : List Char) : isCommentLine (c :: text) = true := by
    rcases opens with rfl | rfl | rfl <;> rfl
  obtain ⟨rest', trimmed⟩ := Text.trim_cons visible rest
  have stripped : (LineParts.ofLine (c :: rest)).stripped = c :: rest' := trimmed
  intro number
  have none : Block.ofLine number (c :: rest) = (none, []) := by
    simp only [Block.ofLine, tokens, tokenDiagnostics, stripped, comment, if_true, or_true,
      if_neg (List.cons_ne_nil _ _)]
    rfl
  rw [none]
  refine ⟨rfl, ?_⟩
  rintro b ⟨⟩

/-! Programs from lines. -/

theorem splitLines_append {line : List Char} (unbroken : '\n' ∉ line) {text next : List Char}
    {lines : List (List Char)} (split : Text.splitLines text = next :: lines) :
    Text.splitLines (line ++ text) = (line ++ next) :: lines := by
  induction line with
  | nil => exact split
  | cons c rest ih =>
    rw [List.cons_append, Text.splitLines, ih (List.not_mem_of_not_mem_cons unbroken)]
    simp only [if_neg (List.ne_of_not_mem_cons unbroken).symm]
    rfl

theorem splitLines_joinLines {lines : List (List Char)} (nonempty : lines ≠ [])
    (unbroken : ∀ line ∈ lines, '\n' ∉ line) : Text.splitLines (Text.joinLines lines) = lines := by
  induction lines with
  | nil => exact absurd rfl nonempty
  | cons line rest ih =>
    cases rest with
    | nil =>
      have alone := @splitLines_append line (unbroken line List.mem_cons_self) [] [] [] rfl
      simpa [Text.joinLines] using alone
    | cons next others =>
      have following :=
        ih (List.cons_ne_nil _ _) fun l member => unbroken l (List.mem_cons_of_mem _ member)
      have broken : Text.splitLines ('\n' :: Text.joinLines (next :: others)) =
          [] :: next :: others := by
        rw [Text.splitLines, following]
        rfl
      rw [Text.joinLines, splitLines_append (unbroken line List.mem_cons_self) broken,
        List.append_nil]

namespace Modal

/-- The modal values after an effect. -/
def afterEffect (m : Modal) : Effect → Modal
  | .silent => m
  | .motion _ x y feed => m.advance x y feed

def afterEffects (m : Modal) (effects : List Effect) : Modal := effects.foldl afterEffect m

/-- The moves of effects, one a line. -/
def run (m : Modal) (number : Int) : List Effect → List (Move Float)
  | [] => []
  | .silent :: rest => m.run (number + 1) rest
  | .motion kind x y feed :: rest =>
    let next := m.advance x y feed
    ⟨kind, next.x, next.y, next.feed, number⟩ :: next.run (number + 1) rest

theorem run_append (m : Modal) (number : Int) (effects rest : List Effect) :
    m.run number (effects ++ rest) =
      m.run number effects ++ (m.afterEffects effects).run (number + effects.length) rest := by
  induction effects generalizing m number with
  | nil => simp [run, afterEffects]
  | cons effect effects ih =>
    have place : number + (effects.length + 1 : Nat) = number + 1 + effects.length := by
      push_cast
      omega
    cases effect with
    | silent =>
      rw [List.cons_append, run, run, ih, List.length_cons, place]
      rfl
    | motion kind x y feed =>
      rw [List.cons_append, run, run, ih, List.length_cons, place]
      rfl

theorem moves_eq_run {lines : List (List Char)} {effects : List Effect} (m : Modal) (number : Int)
    (read : List.Forall₂ (fun line effect =>
      ∀ number, effect.Of number (Block.ofLine number line).1) lines effects) :
    m.moves ((Program.readLines number lines).filterMap (·.1)) = m.run number effects := by
  induction read generalizing m number with
  | nil => rfl
  | @cons line effect lines effects first _ ih =>
    have has := first number
    rw [Program.readLines, List.filterMap_cons]
    cases effect with
    | silent =>
      cases shape : (Block.ofLine number line).1 with
      | none => exact ih m (number + 1)
      | some b =>
        have still := has b shape
        simp only [moves, still, afterBlock]
        exact ih m (number + 1)
    | motion kind x y feed =>
      obtain ⟨b, shape, line, moved, rfl, rfl, rfl⟩ := has
      rw [shape]
      simp only [moves, moved, afterBlock, line, run]
      rw [ih]

end Modal

theorem readLines_silent {lines : List (List Char)} {effects : List Effect} (number : Int)
    (read : List.Forall₂ HasEffect lines effects) :
    (Program.readLines number lines).flatMap (·.2) = [] := by
  induction read generalizing number with
  | nil => rfl
  | cons first _ ih =>
    rw [Program.readLines, List.flatMap_cons, (first number).1, ih, List.append_nil]

/-- A program written as lines reads as the run of their effects, and nothing is reported. -/
theorem parse_joinLines {lines : List (List Char)} {effects : List Effect} (nonempty : lines ≠ [])
    (unbroken : ∀ line ∈ lines, '\n' ∉ line) (read : List.Forall₂ HasEffect lines effects) :
    (Program.parse (Text.joinLines lines)).moves = Modal.start.run 1 effects ∧
      (Program.parse (Text.joinLines lines)).diagnostics = [] := by
  rw [Program.parse, splitLines_joinLines nonempty unbroken]
  refine ⟨Modal.moves_eq_run _ _ (read.imp fun _ _ has number => (has number).2), ?_⟩
  rw [Program.ofLines, readLines_silent 1 read]
  exact List.mergeSort_nil

end Toolpath.Gcode
