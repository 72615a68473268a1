import Mathlib
import Toolpath.Proofs.Playback.Run
import Toolpath.Proofs.Tick.Recorded

/-! What a controller does to its engine, over any scheduler: it passes on what it is asked for, and
a tick that fires steps the engine once at the most. So a run goes on over its moves until others
are loaded. The queue of a manual scheduler holds the pending tick and nothing else. -/
namespace Toolpath

namespace Outcome
variable {α σ β γ : Type}

/-- Going on with nothing but an answer. -/
theorem andThen_quiet (o : Outcome α σ β) (f : β → γ) :
    (o.andThen fun state answer => .quiet state (f answer)) = o.map f := by
  obtain ⟨state, announced, log, result⟩ := o
  cases result <;> simp [andThen, quiet, map, Except.map]

theorem map_map {δ : Type} (o : Outcome α σ β) (f : β → γ) (g : γ → δ) :
    (o.map f).map g = o.map (g ∘ f) := by
  obtain ⟨state, announced, log, result⟩ := o
  cases result <;> rfl

end Outcome

namespace Engine
variable {α : Type} [Scalar α] {e d f : Engine α}

/-- A run over the same moves, in a state that is consistent with them. -/
structure Continues (e d : Engine α) : Prop where
  moves : d.moves = e.moves
  same : d.state.Consistent d.moves

theorem Continues.trans (first : e.Continues d) (second : d.Continues f) : e.Continues f :=
  ⟨second.moves.trans first.moves, second.same⟩

theorem Sound.continues {β : Type} {o : Outcome α (Engine α) β} (sound : Sound e o) :
    e.Continues o.state := by
  refine ⟨sound.moves, ?_⟩
  rw [sound.moves]
  exact sound.state

end Engine

namespace Controller
variable {α σ : Type}

section
variable {c : Controller α σ} {token : Nat} [TickScheduler σ]

theorem cancelPending_engine : c.cancelPending.engine = c.engine := by
  unfold cancelPending
  split <;> rfl

theorem cancelPending_pending : c.cancelPending.pending = none := by
  unfold cancelPending
  split
  · rfl
  · assumption

theorem cancelPending_withEngine (engine : Engine α) :
    ({ c with engine } : Controller α σ).cancelPending = { c.cancelPending with engine } := by
  obtain ⟨_, _, pending, _⟩ := c
  cases pending <;> rfl

theorem afterTick_state (c : Controller α σ) :
    c.afterTick.state = if c.engine.state.isRunning then c.scheduleNext else c := by
  unfold afterTick
  split
  · rfl
  · split <;> rfl

variable [Scalar α]

/-- What an action does to the pending tick: it cancels it and leaves the run at rest, or running
with the next tick scheduled; or it leaves it alone, and with it whether the run is running. -/
inductive Effect (c d : Controller α σ) : Prop where
  | settles (engine : Engine α) (eq : d = { c.cancelPending with engine })
      (resting : engine.state.isRunning = false)
  | schedules (engine : Engine α)
      (eq : d = ({ c.cancelPending with engine } : Controller α σ).scheduleNext)
      (running : engine.state.isRunning = true)
  | ignores (engine : Engine α) (eq : d = { c with engine })
      (unchanged : engine.state.isRunning = c.engine.state.isRunning)

omit [Scalar α] in
theorem pause_effect : Effect c c.pause.state :=
  .settles _ rfl (Engine.pause_resting _)

omit [Scalar α] in
theorem resume_effect : Effect c c.resume.state := by
  unfold resume
  rcases Engine.resume_result c.engine with ⟨result, running⟩ | ⟨result, unchanged⟩
  · simp only [lift, Outcome.within, Outcome.andThen, result, if_true, Outcome.quiet]
    exact .schedules _ (congrArg scheduleNext (cancelPending_withEngine _)) running
  · simp only [lift, Outcome.within, Outcome.andThen, result, if_false, Bool.false_eq_true,
      Outcome.quiet, unchanged]
    exact .ignores _ rfl rfl

theorem start_effect (same : c.engine.state.Consistent c.engine.moves) :
    Effect c c.start.state := by
  have result :=
    @Engine.start_result _ _ c.cancelPending.engine (by rw [cancelPending_engine]; exact same)
  unfold start
  simp only [lift, Outcome.within, Outcome.andThen, result, Outcome.quiet]
  split
  · rename_i running
    exact .schedules _ rfl running
  · rename_i resting
    exact .settles _ rfl (by simpa using resting)

theorem perform_effect (action : Action α) (same : c.engine.state.Consistent c.engine.moves) :
    Effect c (c.perform action).state := by
  cases action with
  | load moves => exact .settles _ rfl rfl
  | start => exact start_effect same
  | pause => exact pause_effect
  | resume => exact resume_effect
  | togglePause =>
    change Effect c c.togglePause.state
    unfold togglePause
    split
    · exact pause_effect
    · exact resume_effect
  | reset => exact .settles _ rfl rfl
  | setSpeed speed => exact .ignores _ rfl rfl

/-- What an action asks of the engine. -/
def Action.operation : Action α → Engine.Operation α
  | .load moves => .load moves
  | .start => .start
  | .pause => .pause
  | .resume => .resume
  | .togglePause => .togglePause
  | .reset => .reset
  | .setSpeed speed => .setSpeed speed

variable [Metric α]

/-- Only loading changes the moves. -/
def Action.loads : Action α → Bool
  | .load _ => true
  | .start | .pause | .resume | .togglePause | .reset | .setSpeed _ => false

theorem perform_engine (action : Action α) :
    (c.perform action).state.engine = (c.engine.perform action.operation).state := by
  have resumed : c.resume.state.engine = c.engine.resume.state := by
    unfold resume
    rcases Engine.resume_result c.engine with ⟨result, _⟩ | ⟨result, _⟩
    · simp only [lift, Outcome.within, Outcome.andThen, result, if_true, Outcome.quiet]
      exact cancelPending_engine
    · simp only [lift, Outcome.within, Outcome.andThen, result, if_false, Bool.false_eq_true,
        Outcome.quiet]
  have engine := @cancelPending_engine _ _ c _
  cases action with
  | load moves => exact congrArg (fun e => (Engine.load e moves).state) engine
  | start =>
    change c.start.state.engine = c.engine.start.state
    unfold start
    rw [← engine]
    cases result : c.cancelPending.engine.start.result with
    | error fault => simp only [lift, Outcome.within, Outcome.andThen, result]
    | ok started =>
      simp only [lift, Outcome.within, Outcome.andThen, result, Outcome.quiet]
      cases started <;> rfl
  | pause => exact congrArg (fun e => (Engine.pause e).state) engine
  | resume => exact resumed
  | togglePause =>
    change c.togglePause.state.engine = c.engine.togglePause.state
    unfold togglePause Engine.togglePause
    split
    · exact congrArg (fun e => (Engine.pause e).state) engine
    · exact resumed
  | reset => exact congrArg (fun e => (Engine.reset e).state) engine
  | setSpeed speed => rfl

/-- A tick of an earlier generation does nothing. -/
theorem fire_stale (stale : token ≠ c.generation) :
    (c.fire token).state = c ∧ (c.fire token).announced = [] ∧ (c.fire token).result = .ok () := by
  unfold fire fireWith
  rw [if_pos stale]
  exact ⟨rfl, rfl, rfl⟩

/-- A tick of the current generation steps a run that is running, and the next one is scheduled if
the step has no fault and the run goes on. -/
theorem fire_running (running : c.engine.state.isRunning = true) :
    let d : Controller α σ := { c with engine := c.engine.step.state, pending := none }
    (c.fire c.generation).state =
        (match c.engine.step.result with
        | .error _ => d
        | .ok _ => if d.engine.state.isRunning then d.scheduleNext else d) ∧
      (c.fire c.generation).announced = c.engine.step.announced ∧
      (c.fire c.generation).result = c.engine.step.result := by
  intro d
  have quiet (e : Controller α σ) : e.afterTick.announced = [] ∧ e.afterTick.result = .ok () := by
    unfold afterTick
    split_ifs <;> exact ⟨rfl, rfl⟩
  unfold fire fireWith
  rw [if_neg (not_not.mpr rfl)]
  simp only [running, if_true, lift, Outcome.within, Outcome.andThen]
  cases c.engine.step.result with
  | error fault => exact ⟨rfl, rfl, rfl⟩
  | ok _ =>
    simp only [noReaction, Outcome.quiet, List.append_nil, quiet, and_true]
    exact afterTick_state d

/-- What such a tick leaves pending is the next tick of a run that goes on. -/
theorem fire_running_engine (running : c.engine.state.isRunning = true) :
    (c.fire c.generation).state.engine = c.engine.step.state ∧
      ((c.fire c.generation).state.hasPending = true →
        c.engine.step.state.state.isRunning = true) := by
  rw [(fire_running running).1]
  cases c.engine.step.result with
  | error fault => exact ⟨rfl, fun pending => by cases pending⟩
  | ok _ =>
    simp only
    split
    · rename_i going
      exact ⟨rfl, fun _ => going⟩
    · exact ⟨rfl, fun pending => by cases pending⟩

/-- A tick of the current generation steps the engine, and the next may be scheduled after it. -/
theorem fire_current_cases (c : Controller α σ) :
    let d : Controller α σ := { c with engine := c.engine.step.state, pending := none }
    (c.fire c.generation).state = d ∨ (c.fire c.generation).state = d.scheduleNext := by
  intro d
  by_cases running : c.engine.state.isRunning = true
  · rw [(fire_running running).1]
    cases c.engine.step.result with
    | error fault => exact .inl rfl
    | ok _ => exact (ite_eq_or_eq _ _ _).symm
  · have resting : c.engine.step.state = c.engine := by
      rw [Engine.step, if_neg running]
      rfl
    unfold fire fireWith
    rw [if_neg (not_not.mpr rfl)]
    simp only [running, if_false, Bool.false_eq_true, d, resting]
    exact .inl rfl

theorem fire_engine (c : Controller α σ) (token : Nat) :
    (c.fire token).state.engine = c.engine ∨
      (c.fire token).state.engine = c.engine.step.state := by
  by_cases current : token = c.generation
  · subst current
    rcases fire_current_cases c with eq | eq
    · exact .inr (by rw [eq])
    · exact .inr (by rw [eq]; rfl)
  · exact .inl (by rw [(fire_stale current).1])

theorem perform_continues {action : Action α} (same : c.engine.state.Consistent c.engine.moves)
    (kept : action.loads = false) : c.engine.Continues (c.perform action).state.engine := by
  rw [perform_engine]
  have sound := @Engine.perform_sound _ _ _ _ action.operation same
  have continues := sound.continues
  have moves : (c.engine.setUp action.operation).moves = c.engine.moves := by
    cases action with
    | load moves => cases kept
    | _ => rfl
  exact ⟨continues.moves.trans moves, continues.same⟩

theorem fire_continues (token : Nat) (same : c.engine.state.Consistent c.engine.moves) :
    c.engine.Continues (c.fire token).state.engine := by
  rcases fire_engine c token with eq | eq
  · rw [eq]
    exact ⟨rfl, same⟩
  · rw [eq]
    exact (Engine.step_sound same).continues

theorem fireAll_continues (tokens : List Nat) (same : c.engine.state.Consistent c.engine.moves) :
    c.engine.Continues (c.fireAll tokens).state.engine := by
  induction tokens generalizing c with
  | nil => exact ⟨rfl, same⟩
  | cons token rest ih =>
    have fired := fire_continues token same
    unfold fireAll Outcome.andThen
    split
    · exact fired
    · exact fired.trans (ih fired.same)

end

section Manual
variable {c : Controller α (ManualScheduler Nat)}

/-- The queue holds the pending tick, of the current generation, and nothing else. -/
def Queued (c : Controller α (ManualScheduler Nat)) : Prop :=
  c.scheduler.queue = (c.pending.map fun handle => (handle, c.generation)).toList

/-- No tick is pending, and none is queued. -/
structure Still (c : Controller α (ManualScheduler Nat)) : Prop where
  pending : c.pending = none
  queue : c.scheduler.queue = []

theorem new_queued (engine : Engine α) : (Controller.new engine .empty).Queued := rfl

theorem Still.withEngine (still : c.Still) (engine : Engine α) :
    ({ c with engine } : Controller α (ManualScheduler Nat)).Still :=
  ⟨still.pending, still.queue⟩

theorem Still.queued (still : c.Still) : c.Queued := by
  rw [Queued, still.pending, still.queue]
  rfl

theorem Queued.cancelPending (queued : c.Queued) : c.cancelPending.Still := by
  refine ⟨cancelPending_pending, ?_⟩
  unfold Queued at queued
  unfold Controller.cancelPending
  split
  · rename_i handle pending
    rw [pending] at queued
    change c.scheduler.queue.filter (·.1 != handle) = []
    rw [queued]
    simp
  · rename_i pending
    rw [pending] at queued
    exact queued

theorem scheduleNext_queued (empty : c.scheduler.queue = []) : c.scheduleNext.Queued := by
  change c.scheduler.queue ++ _ = _
  rw [empty]
  rfl

variable [Scalar α]

theorem perform_queued (action : Action α) (same : c.engine.state.Consistent c.engine.moves)
    (queued : c.Queued) : (c.perform action).state.Queued := by
  have still := queued.cancelPending
  cases perform_effect action same with
  | settles engine eq =>
    rw [eq]
    exact (still.withEngine engine).queued
  | schedules engine eq =>
    rw [eq]
    exact scheduleNext_queued (still.withEngine engine).queue
  | ignores engine eq =>
    rw [eq]
    exact queued

variable [Metric α]

theorem runPending_state (c : Controller α (ManualScheduler Nat)) :
    c.runPending.state =
      (({ c with scheduler := c.scheduler.takeBatch.1 } : Controller α (ManualScheduler Nat)).fireAll
        (c.scheduler.queue.map Prod.snd)).state := by
  unfold runPending Outcome.andThen
  simp only
  split <;> rfl

theorem runPending_continues (same : c.engine.state.Consistent c.engine.moves) :
    c.engine.Continues c.runPending.state.engine := by
  rw [runPending_state]
  exact fireAll_continues (c := { c with scheduler := c.scheduler.takeBatch.1 }) _ same

/-- A tick that fires off an empty queue may put the next one there. -/
theorem fire_queued (empty : c.scheduler.queue = []) : (c.fire c.generation).state.Queued := by
  rcases fire_current_cases c with eq | eq
  · rw [eq]
    exact Still.queued ⟨rfl, empty⟩
  · rw [eq]
    exact scheduleNext_queued empty

theorem fireAll_singleton (token : Nat) : (c.fireAll [token]).state = (c.fire token).state := by
  unfold fireAll Outcome.andThen
  split <;> rfl

theorem runPending_queued (queued : c.Queued) : c.runPending.state.Queued := by
  rw [runPending_state, queued]
  cases c.pending with
  | none => exact Still.queued ⟨rfl, rfl⟩
  | some handle =>
    change Queued (fireAll _ [c.generation]).state
    rw [fireAll_singleton]
    exact fire_queued rfl

/-- What every round keeps, running until idle keeps. -/
theorem runRounds_keeps {P : Controller α (ManualScheduler Nat) → Prop}
    (round : ∀ c, P c → P c.runPending.state) {maxTicks ticks : Int} {fuel : Nat}
    {announced : List (PlaybackState α)} {log : List Log.Entry} (holds : P c) :
    P (c.runRounds maxTicks fuel ticks announced log).state := by
  induction fuel generalizing c ticks announced log with
  | zero => exact holds
  | succ fuel ih =>
    rw [runRounds]
    split
    · exact holds
    · simp only
      split
      · exact ih (round c holds)
      · exact round c holds

end Manual

end Controller

end Toolpath
