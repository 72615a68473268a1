import Mathlib
import Toolpath.Tick.Controller

/-! Controllers whose scheduler is any scheduler beside a record of the ticks it was given. A tick
is known by its place in the record, whether or not the scheduler itself still holds it, so one that
was cancelled may fire. Keeping the record changes nothing: without it every action comes to the
same. -/
namespace Toolpath

structure Recorded (σ : Type) where
  scheduler : σ
  /-- The token of every tick ever scheduled, in order. -/
  tokens : List Nat

instance {σ : Type} [TickScheduler σ] : TickScheduler (Recorded σ) where
  schedule s token :=
    (⟨(TickScheduler.schedule s.scheduler token).1, s.tokens ++ [token]⟩,
      (TickScheduler.schedule s.scheduler token).2)
  cancel s handle := { s with scheduler := TickScheduler.cancel s.scheduler handle }

namespace Controller
variable {α σ β γ : Type}

/-- The controller without the record. -/
def unrecorded (c : Controller α (Recorded σ)) : Controller α σ :=
  ⟨c.engine, c.scheduler.scheduler, c.pending, c.generation⟩

variable {c : Controller α (Recorded σ)}

theorem unrecorded_lift (o : Outcome α (Engine α) β) :
    (c.lift o).within unrecorded = c.unrecorded.lift o := rfl

theorem unrecorded_andThen {o : Outcome α (Controller α (Recorded σ)) β}
    {next : Controller α (Recorded σ) → β → Outcome α (Controller α (Recorded σ)) γ}
    {bare : Controller α σ → β → Outcome α (Controller α σ) γ}
    (same : ∀ d answer, (next d answer).within unrecorded = bare d.unrecorded answer) :
    (o.andThen next).within unrecorded = (o.within unrecorded).andThen bare := by
  obtain ⟨state, announced, log, result⟩ := o
  cases result with
  | error fault => rfl
  | ok answer => simp only [Outcome.andThen, Outcome.within, ← same]

variable [TickScheduler σ]

theorem unrecorded_scheduleNext : c.scheduleNext.unrecorded = c.unrecorded.scheduleNext := rfl

theorem unrecorded_cancelPending : c.cancelPending.unrecorded = c.unrecorded.cancelPending := by
  obtain ⟨engine, scheduler, pending, generation⟩ := c
  cases pending <;> rfl

/-- Most actions cancel the pending tick and pass on to the engine. -/
theorem unrecorded_passOn (operate : Engine α → Outcome α (Engine α) β) :
    (c.cancelPending.lift (operate c.cancelPending.engine)).within unrecorded =
      c.unrecorded.cancelPending.lift (operate c.unrecorded.cancelPending.engine) := by
  rw [unrecorded_lift, ← unrecorded_cancelPending]
  rfl

theorem unrecorded_pause : c.pause.within unrecorded = c.unrecorded.pause :=
  unrecorded_passOn Engine.pause

theorem unrecorded_resume : c.resume.within unrecorded = c.unrecorded.resume := by
  unfold resume
  rw [unrecorded_andThen, unrecorded_lift]
  · rfl
  · intro d resumed
    cases resumed
    · rfl
    · rw [if_pos rfl, if_pos rfl, ← unrecorded_cancelPending]
      rfl

theorem unrecorded_togglePause : c.togglePause.within unrecorded = c.unrecorded.togglePause := by
  unfold togglePause
  change _ = if c.engine.state.isRunning then _ else _
  split
  · exact unrecorded_pause
  · exact unrecorded_resume

theorem unrecorded_afterTick : c.afterTick.within unrecorded = c.unrecorded.afterTick := by
  unfold afterTick
  change _ = if c.engine.state.isRunning then _ else if c.engine.state.isComplete then _ else _
  split
  · rfl
  · split <;> rfl

variable [Scalar α]

theorem unrecorded_start : c.start.within unrecorded = c.unrecorded.start := by
  unfold start
  rw [unrecorded_andThen, unrecorded_passOn Engine.start]
  intro d started
  cases started <;> rfl

/-- What may be asked of a controller from outside. -/
inductive Action (α : Type) where
  | load (moves : List (Move α))
  | start
  | pause
  | resume
  | togglePause
  | reset
  | setSpeed (speed : Int)

/-- What an action comes to, its answer aside. -/
def perform (c : Controller α σ) : Action α → Outcome α (Controller α σ) Unit
  | .load moves => c.load moves
  | .start => c.start.map fun _ => ()
  | .pause => c.pause.map fun _ => ()
  | .resume => c.resume.map fun _ => ()
  | .togglePause => c.togglePause.map fun _ => ()
  | .reset => c.reset
  | .setSpeed speed => .quiet (c.setSpeed speed) ()

theorem unrecorded_perform (action : Action α) :
    (c.perform action).within unrecorded = c.unrecorded.perform action := by
  cases action with
  | load moves => exact unrecorded_passOn (Engine.load · moves)
  | start => exact congrArg (Outcome.map · fun _ => ()) unrecorded_start
  | pause => exact congrArg (Outcome.map · fun _ => ()) unrecorded_pause
  | resume => exact congrArg (Outcome.map · fun _ => ()) unrecorded_resume
  | togglePause => exact congrArg (Outcome.map · fun _ => ()) unrecorded_togglePause
  | reset => exact unrecorded_passOn Engine.reset
  | setSpeed speed => rfl

variable [Metric α]

theorem unrecorded_fire (token : Nat) :
    (c.fire token).within unrecorded = c.unrecorded.fire token := by
  unfold fire fireWith
  change _ = if token ≠ c.generation then _ else if c.engine.state.isRunning then _ else _
  split
  · rfl
  · simp only
    split
    · rw [unrecorded_andThen, unrecorded_andThen, unrecorded_lift]
      · rfl
      · exact fun d _ => rfl
      · exact fun d _ => unrecorded_afterTick
    · rfl

end Controller

end Toolpath
