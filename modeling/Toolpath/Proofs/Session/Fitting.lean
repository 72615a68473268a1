import Mathlib
import Toolpath.Session.Basic

/-! What a session is asked for, in any order, and its view. Every operation that changes the
program fits the view to it, other than a reset: this empties the program and leaves the view as it
was fitted to the program before, until a text is processed or the display is given a size. -/
namespace Toolpath

namespace View
variable {α : Type} [Scalar α] (view : View α) (box : Envelope α) (width height : α)

@[simp] theorem refit_width : (view.refit box width height).width = width := by
  simp only [refit]
  split <;> rfl

@[simp] theorem refit_height : (view.refit box width height).height = height := by
  simp only [refit]
  split <;> rfl

/-- Fitting a view again to the box and the display that it is fitted to changes nothing, whether or
not it could be fitted. -/
theorem refit_refit :
    (view.refit box width height).refit box width height = view.refit box width height := by
  by_cases kept :
      (box.isDegenerate || Scalar.le (view.fitScale box width height) Scalar.zero) = true
  · have once : view.refit box width height = { view with width, height } := if_pos kept
    rw [once]
    exact if_pos kept
  · have once : view.refit box width height = _ := if_neg kept
    rw [once]
    exact if_neg kept

end View

namespace Session
variable {σ : Type} {s : Session σ}

/-- What may be asked of a session. A tick that was scheduled may fire, and the scheduler may do to
itself what it likes, such as taking a tick off its queue. -/
inductive Operation (σ : Type) where
  | process (text : List Char)
  | processDrawing (text : List Char)
  | convertDrawing (text : List Char)
  | setDisplaySize (width height : Option Float)
  | start
  | pause
  | togglePause
  | resetPlayback
  | setSpeed (speed : Int)
  | tick (token : Nat)
  | shift (scheduler : σ)
  | reset

/-- Fitting the view anew would change nothing, where a value that is not a number is the same as
itself. -/
def Fits (s : Session σ) : Prop :=
  s.view.refit s.program.envelope s.view.width s.view.height = s.view

theorem fits_of_refit {t : Session σ} {view : View Float} {width height : Float}
    (fitted : t.view = view.refit t.program.envelope width height) : t.Fits := by
  rw [Fits, fitted, View.refit_width, View.refit_height, View.refit_refit]

theorem new_fits (settings : SessionSettings) (scheduler : σ) :
    (Session.new settings scheduler).Fits :=
  fits_of_refit rfl

theorem Fits.of_same {t : Session σ} (fits : s.Fits) (view : t.view = s.view)
    (program : t.program = s.program) : t.Fits := by
  rw [Fits, view, program]
  exact fits

/-- Whether an operation fits the view to the program. A drawing that cannot be compiled gives no
program. -/
def fitsView (s : Session σ) : Operation σ → Bool
  | .process _ | .setDisplaySize _ _ => true
  | .processDrawing text => (s.convertDrawing text).result.isOk
  | .convertDrawing _ | .start | .pause | .togglePause | .resetPlayback | .setSpeed _ | .tick _
  | .shift _ | .reset => false

/-- Whether the view is left behind after an operation, if it was or was not before: a reset empties
the program and does not fit the view to that. -/
def leavesBehind (s : Session σ) (before : Bool) : Operation σ → Bool
  | .reset => true
  | operation => before && !s.fitsView operation

theorem leavesBehind_of_ne {operation : Operation σ} (other : operation ≠ .reset)
    (before : Bool) : s.leavesBehind before operation = (before && !s.fitsView operation) := by
  cases operation <;> first | rfl | exact absurd rfl other

variable [TickScheduler σ]

/-- What an operation comes to, its answer aside. -/
def perform (s : Session σ) : Operation σ → Outcome Float (Session σ) Unit
  | .process text => s.process text
  | .processDrawing text => s.processDrawing text
  | .convertDrawing text => (s.convertDrawing text).map fun _ => ()
  | .setDisplaySize width height => .quiet (s.setDisplaySize width height) ()
  | .start => s.start.map fun _ => ()
  | .pause => s.pause.map fun _ => ()
  | .togglePause => s.togglePause.map fun _ => ()
  | .resetPlayback => s.resetPlayback
  | .setSpeed speed => .quiet (s.setSpeed speed) ()
  | .tick token => s.lift (s.controller.fire token)
  | .shift scheduler => .quiet { s with controller := { s.controller with scheduler } } ()
  | .reset => s.reset

/-- An operation fits the view to the program, or empties the program, or changes neither. -/
theorem perform_cases (s : Session σ) (operation : Operation σ) :
    let t := (s.perform operation).state
    (s.fitsView operation = true ∧ operation ≠ .reset ∧ t.Fits) ∨
      (operation = .reset ∧ t.view = s.view ∧ t.program = .empty) ∨
      (s.fitsView operation = false ∧ operation ≠ .reset ∧ t.view = s.view ∧
        t.program = s.program) := by
  cases operation with
  | process text => exact .inl ⟨rfl, nofun, fits_of_refit rfl⟩
  | processDrawing text =>
    unfold perform fitsView processDrawing
    cases compiled : (s.convertDrawing text).result with
    | error fault =>
      simp only [Outcome.andThen, compiled]
      exact .inr (.inr ⟨rfl, nofun, rfl, rfl⟩)
    | ok program =>
      simp only [Outcome.andThen, compiled]
      exact .inl ⟨rfl, nofun, fits_of_refit rfl⟩
  | setDisplaySize width height => exact .inl ⟨rfl, nofun, fits_of_refit rfl⟩
  | reset => exact .inr (.inl ⟨rfl, rfl, rfl⟩)
  | _ => exact .inr (.inr ⟨rfl, nofun, rfl, rfl⟩)

/-- The session after operations, each of which may have ended with a fault. -/
def performAll (s : Session σ) (operations : List (Operation σ)) : Session σ :=
  operations.foldl (fun s operation => (s.perform operation).state) s

theorem performAll_concat (operations : List (Operation σ)) (operation : Operation σ) :
    s.performAll (operations ++ [operation]) =
      ((s.performAll operations).perform operation).state := by
  rw [performAll, List.foldl_append]
  rfl

/-- Whether a reset came after the last operation that fits the view. -/
def leftBehind (s : Session σ) (operations : List (Operation σ)) : Bool :=
  (operations.foldl (fun (s, before) operation =>
    ((s.perform operation).state, s.leavesBehind before operation)) (s, false)).2

theorem leftBehind_concat (operations : List (Operation σ)) (operation : Operation σ) :
    s.leftBehind (operations ++ [operation]) =
      (s.performAll operations).leavesBehind (s.leftBehind operations) operation := by
  have session : (operations.foldl (fun (p : Session σ × Bool) operation =>
      ((p.1.perform operation).state, p.1.leavesBehind p.2 operation)) (s, false)).1 =
      s.performAll operations := by
    induction operations using List.reverseRecOn with
    | nil => rfl
    | append_singleton operations operation ih =>
      rw [List.foldl_append, performAll_concat, ← ih]
      rfl
  rw [leftBehind, List.foldl_append, ← session]
  rfl

/-- The view fits the program, unless a reset came after the last operation that fits the view. Then
the program is empty, and the view is as it was at an earlier time, when it fitted the program. -/
theorem view_fits (settings : SessionSettings) (scheduler : σ) (operations : List (Operation σ)) :
    let first := Session.new settings scheduler
    let s := first.performAll operations
    if first.leftBehind operations then
      s.program = .empty ∧ ∃ earlier, earlier <+: operations ∧
        (first.performAll earlier).Fits ∧ s.view = (first.performAll earlier).view
    else s.Fits := by
  intro first
  induction operations using List.reverseRecOn with
  | nil => exact new_fits settings scheduler
  | append_singleton operations operation ih =>
    have within : operations <+: operations ++ [operation] := List.prefix_append _ _
    simp only [leftBehind_concat, performAll_concat]
    rcases perform_cases (first.performAll operations) operation with
      ⟨fitting, other, fits⟩ | ⟨rfl, view, program⟩ | ⟨fitting, other, view, program⟩
    · rw [leavesBehind_of_ne other, fitting, Bool.not_true, Bool.and_false,
        if_neg Bool.false_ne_true]
      exact fits
    · rw [leavesBehind, if_pos rfl]
      refine ⟨program, ?_⟩
      -- The view that a reset keeps fitted the program now gone, unless it was behind before.
      by_cases left : first.leftBehind operations = true
      · rw [if_pos left] at ih
        obtain ⟨-, earlier, sooner, fits, same⟩ := ih
        exact ⟨earlier, sooner.trans within, fits, view.trans same⟩
      · rw [if_neg left] at ih
        exact ⟨operations, within, ih, view⟩
    · rw [leavesBehind_of_ne other, fitting, Bool.not_false, Bool.and_true]
      by_cases left : first.leftBehind operations = true
      · rw [if_pos left] at ih ⊢
        obtain ⟨empty, earlier, sooner, fits, same⟩ := ih
        exact ⟨program.trans empty, earlier, sooner.trans within, fits, view.trans same⟩
      · rw [if_neg left] at ih ⊢
        exact ih.of_same view program

/-- A reset after a program of another size leaves a view that would not be fitted so. -/
theorem reset_leaves_view :
    let settings : SessionSettings :=
      ⟨50, 25, 3, 800, 600, 60, 0.9, Drawing.CompilerConfig.default.compiler, 3⟩
    let first : Session (ManualScheduler Nat) := .new settings .empty
    let s := first.performAll [.process "G1 X10 Y20\nG1 X40 Y30".toList, .reset]
    s.program = .empty ∧ ¬ s.Fits := by
  intro settings first s
  refine ⟨rfl, fun fits => ?_⟩
  have anew : ((s.view.refit s.program.envelope s.view.width s.view.height).scale == s.view.scale) =
      false := by
    decide +kernel
  have itself : (s.view.scale == s.view.scale) = true := by decide +kernel
  rw [fits, itself] at anew
  cases anew

end Session

end Toolpath
