import Mathlib
import Toolpath.Drawing.Compile
import Toolpath.Proofs.Gcode.Emission

/-! The lines of a compiled drawing, with the effect that each has when it is read: header and
footer, the pen, and the strokes. -/
namespace Toolpath.Drawing
open Gcode Binary64 Decimal

/-- A configuration whose numbers can be written: they are finite, and the feed is not negative. -/
structure CompilerConfig.Writable (config : CompilerConfig) : Prop where
  feedRate : isFinite config.feedRate = true
  nonnegative : 0 ≤ config.feedRate
  safeZ : isFinite config.safeZ = true
  cutZ : isFinite config.cutZ = true

/-- A configuration whose numbers are finite, be the feed negative or not. -/
structure CompilerConfig.Finite (config : CompilerConfig) : Prop where
  feedRate : isFinite config.feedRate = true
  safeZ : isFinite config.safeZ = true
  cutZ : isFinite config.cutZ = true

theorem CompilerConfig.Writable.finite {config : CompilerConfig} (writable : config.Writable) :
    config.Finite :=
  ⟨writable.feedRate, writable.safeZ, writable.cutZ⟩

/-- The words that a height is written with. -/
theorem exists_heightWords {z : Float} (finite : isFinite z = true) :
    ∃ (n : Numeral) (good : isFinite n.value = true), n.value = reread z ∧
      "G0 Z".toList ++ constant z = wordsText (moveWord .rapid) [⟨'Z', rfl, n, good⟩] := by
  obtain ⟨n, text, value, good⟩ := exists_constant finite
  refine ⟨n, good, value, ?_⟩
  rw [wordsText, moveWord_text]
  simp [WrittenWord.text, text, MoveKind.word]

/-- A height gives no value, whatever comment follows it. -/
theorem hasEffect_height {z : Float} (finite : isFinite z = true) {tail : List Char}
    (allowed : Tail tail) :
    HasEffect ("G0 Z".toList ++ constant z ++ tail) Effect.hold := by
  obtain ⟨n, good, _, line⟩ := exists_heightWords finite
  rw [line]
  exact hasEffect_motion allowed (fun _ _ => ⟨trivial, trivial, trivial⟩) fun _ _ => rfl

theorem homeLine_eq : "G0 X0 Y0".toList = wordsText (moveWord .rapid)
    [naturalWord 'X' 0 rfl finite_zeroNumeral,
      naturalWord 'Y' 0 rfl finite_zeroNumeral] ++ [] := by
  decide

theorem hasEffect_home : HasEffect "G0 X0 Y0".toList Effect.home := by
  rw [homeLine_eq]
  exact hasEffect_motion .none (fun _ _ => ⟨trivial, rfl, rfl, trivial⟩) fun _ _ => rfl

/-- A command that asks for no motion. -/
theorem hasEffect_mode {line tail : List Char} (w : WrittenWord) (shape : line = w.text ++ tail)
    (allowed : Tail tail) (command : w.kind = .g ∨ w.kind = .other)
    (motionless : (w.number.value == 0) = false ∧ (w.number.value == 1) = false) :
    HasEffect line .silent := by
  have words : line = wordsText w [] ++ tail := by simp [wordsText, shape]
  rw [words]
  apply hasEffect_words allowed
  · intro number count
    refine ⟨?_, trivial⟩
    unfold Block.Admits
    rcases command with kind | kind <;> rw [kind] <;> trivial
  · intro number count
    have still : ((Block.empty number count).give w).kind? = none := by
      unfold Block.give
      rcases command with kind | kind
      · simp [kind, Block.kind?, Block.empty, motionless]
      · simp [kind, Block.kind?, Block.empty]
    refine ⟨?_, ?_⟩
    · change ((Block.empty number count).give w).bothDiagnostic? = []
      simp [Block.bothDiagnostic?, still]
    · rintro b ⟨⟩
      exact still

/-! A stroke: the title, three rapid moves, and a linear move for each point of the path. -/

def FinitePoint (p : Float × Float) : Prop := isFinite p.1 = true ∧ isFinite p.2 = true

def pathEffects (places : Nat) (feed : Float) (path : List (Float × Float)) : List Effect :=
  path.map fun (x, y) =>
    .motion .linear (some (rounded places x)) (some (rounded places y)) (some (reread feed))

def strokeEffects (places : Nat) (feed : Float) (start : Float × Float)
    (path : List (Float × Float)) : List Effect :=
  [.silent, .hold,
    .motion .rapid (some (rounded places start.1)) (some (rounded places start.2)) none, .hold] ++
    pathEffects places feed path

namespace CompilerConfig
variable {config : CompilerConfig}

theorem penUp_effect (writable : config.Writable) : HasEffect config.penUp Effect.hold :=
  hasEffect_height writable.safeZ (.comment 11 " Pen u".toList 'p' rfl)

theorem penDown_effect (writable : config.Writable) : HasEffect config.penDown Effect.hold :=
  hasEffect_height writable.cutZ (.comment 12 " Pen dow".toList 'n' rfl)

def headerEffects : List Effect :=
  List.replicate 10 .silent ++ [.hold, .home, .silent]

theorem header_effects (writable : config.Writable) :
    List.Forall₂ HasEffect config.header headerEffects := by
  have opened : HasEffect ("G0 Z".toList ++ constant config.safeZ) Effect.hold := by
    simpa using hasEffect_height writable.safeZ .none
  refine .cons (hasEffect_comment (.inr (.inr rfl)) _) <| .cons (hasEffect_comment (.inl rfl) _) <|
    .cons (hasEffect_comment (.inl rfl) _) <| .cons (hasEffect_comment (.inl rfl) _) <|
    .cons hasEffect_blank <|
    .cons ?_ <| .cons ?_ <| .cons ?_ <| .cons hasEffect_blank <|
    .cons (hasEffect_comment (.inr (.inl rfl)) _) <|
    .cons opened <| .cons hasEffect_home <| .cons hasEffect_blank .nil
  · exact hasEffect_mode (naturalWord 'G' 21 rfl (by decide +kernel)) (by decide +kernel)
      (.comment 9 " Millimeter".toList 's' rfl) (.inl rfl) (by decide +kernel)
  · exact hasEffect_mode (naturalWord 'G' 90 rfl (by decide +kernel)) (by decide +kernel)
      (.comment 9 " Absolute positionin".toList 'g' rfl) (.inl rfl) (by decide +kernel)
  · exact hasEffect_mode (naturalWord 'G' 17 rfl (by decide +kernel)) (by decide +kernel)
      (.comment 9 " XY plan".toList 'e' rfl) (.inl rfl) (by decide +kernel)

def footerEffects : List Effect := [.silent, .hold, .home, .silent, .silent, .silent]

theorem footer_effects (writable : config.Writable) :
    List.Forall₂ HasEffect config.footer footerEffects := by
  refine .cons (hasEffect_comment (.inr (.inl rfl)) _) <| .cons (penUp_effect writable) <|
    .cons hasEffect_home <|
    .cons hasEffect_blank <| .cons ?_ <| .cons (hasEffect_comment (.inr (.inr rfl)) _) .nil
  exact hasEffect_mode (naturalWord 'M' 30 rfl (by decide +kernel)) (by decide +kernel)
    (.comment 9 " Program en".toList 'd' rfl) (.inr rfl) (by decide +kernel)

theorem path_effects (writable : config.Writable) (places : Nat) {path : List (Float × Float)}
    (finite : ∀ p ∈ path, FinitePoint p) :
    List.Forall₂ HasEffect
      (path.map fun (x, y) =>
        "G1 ".toList ++ pointWords places x y ++ " F".toList ++ constant config.feedRate)
      (pathEffects places config.feedRate path) := by
  induction path with
  | nil => exact .nil
  | cons p rest ih =>
    obtain ⟨finiteX, finiteY⟩ := finite p List.mem_cons_self
    refine .cons ?_ (ih fun q member => finite q (List.mem_cons_of_mem _ member))
    have point :=
      hasEffect_pointFeed places .linear finiteX finiteY writable.feedRate writable.nonnegative
    simpa [MoveKind.word] using point

theorem stroke_effects (writable : config.Writable) (places : Nat) (title : List Char)
    {start : Float × Float} {path : List (Float × Float)} (finiteStart : FinitePoint start)
    (finite : ∀ p ∈ path, FinitePoint p) :
    List.Forall₂ HasEffect (config.stroke places (';' :: title) start path)
      (strokeEffects places config.feedRate start path) := by
  have moved := hasEffect_point places .rapid finiteStart.1 finiteStart.2
  exact .cons (hasEffect_comment (.inr (.inl rfl)) _) <| .cons (penUp_effect writable) <|
    .cons moved <|
    .cons (penDown_effect writable) (path_effects writable places finite)

/-! No line is broken in two. -/

theorem header_unbroken (finite : config.Finite) : ∀ line ∈ config.header, '\n' ∉ line := by
  have feed := constant_unbroken finite.feedRate
  have safe := constant_unbroken finite.safeZ
  have cut := constant_unbroken finite.cutZ
  simp only [header, List.forall_mem_cons, List.mem_append, not_or]
  refine ⟨?_, ?_, ⟨⟨?_, feed⟩, ?_⟩, ⟨⟨⟨⟨?_, safe⟩, ?_⟩, cut⟩, ?_⟩, ?_, ?_, ?_, ?_, ?_, ?_,
    ⟨?_, safe⟩, ?_, ?_, by simp⟩ <;> decide

theorem penUp_unbroken (finite : config.Finite) : '\n' ∉ config.penUp := by
  have safe := constant_unbroken finite.safeZ
  simp only [penUp, List.mem_append, not_or]
  refine ⟨⟨?_, safe⟩, ?_⟩ <;> decide

theorem footer_unbroken (finite : config.Finite) : ∀ line ∈ config.footer, '\n' ∉ line := by
  simp [footer, penUp_unbroken finite]

theorem stroke_unbroken (finite : config.Finite) (places : Nat) {title : List Char}
    (unbroken : '\n' ∉ title) (start : Float × Float) (path : List (Float × Float)) :
    ∀ line ∈ config.stroke places title start path, '\n' ∉ line := by
  have down : '\n' ∉ config.penDown := by simp [penDown, constant_unbroken finite.cutZ]
  have feed := constant_unbroken finite.feedRate
  simp only [stroke, List.forall_mem_append, List.forall_mem_cons, List.forall_mem_map]
  refine ⟨⟨unbroken, penUp_unbroken finite, ?_, down, by simp⟩, ?_⟩
  · simp [pointWords_unbroken]
  · intro p _
    simp [feed, pointWords_unbroken]

end CompilerConfig

end Toolpath.Drawing
