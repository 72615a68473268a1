import Mathlib
import Toolpath.Proofs.Tick.Driving

/-! A run driven through the queue of a manual scheduler is the run of the engine's own loop. Each
round fires the one tick that is queued and so steps the engine once, and the next tick is queued
exactly if the loop goes on; a fault ends both alike. So neither the budget nor the moves nor what
the run did before matter, as long as it is not running and nothing else is queued. -/
namespace Toolpath

namespace Controller
variable {α : Type} {c : Controller α (ManualScheduler Nat)}

/-- The queue holds nothing but the pending tick, and one is pending exactly if the run is running. -/
structure Driven (c : Controller α (ManualScheduler Nat)) : Prop where
  queued : c.Queued
  pending : c.hasPending = c.engine.state.isRunning

theorem Still.driven (still : c.Still) (resting : c.engine.state.isRunning = false) : c.Driven where
  queued := still.queued
  pending := by rw [hasPending, still.pending, resting]; rfl

theorem scheduleNext_driven (empty : c.scheduler.queue = [])
    (running : c.engine.state.isRunning = true) : c.scheduleNext.Driven where
  queued := scheduleNext_queued empty
  pending := running.symm

theorem Driven.queue_running (driven : c.Driven) (running : c.engine.state.isRunning = true) :
    ∃ handle, c.scheduler.queue = [(handle, c.generation)] := by
  have pending := driven.pending
  rw [running] at pending
  obtain ⟨handle, eq⟩ := Option.isSome_iff_exists.mp pending
  have queued := driven.queued
  rw [Queued, eq] at queued
  exact ⟨handle, queued⟩

theorem Driven.queue_resting (driven : c.Driven) (resting : c.engine.state.isRunning = false) :
    c.scheduler.queue = [] := by
  have pending := driven.pending
  rw [resting] at pending
  have queued := driven.queued
  rw [Queued, Option.isNone_iff_eq_none.mp (Option.isSome_eq_false_iff.mp pending)] at queued
  exact queued

variable [Scalar α] [Metric α]

/-- A round that finds one tick comes to what the tick comes to. -/
theorem runPending_single {handle token : Nat} (queue : c.scheduler.queue = [(handle, token)]) :
    c.runPending =
      (({ c with scheduler := c.scheduler.takeBatch.1 } : Controller α (ManualScheduler Nat)).fire
        token).map fun _ => 1 := by
  unfold runPending
  simp only [ManualScheduler.takeBatch, queue, List.map_cons, List.map_nil, List.length_singleton,
    fireAll, Outcome.andThen_quiet, Outcome.map_map]
  rfl

/-- A round of a running run is one step of the engine. -/
theorem runPending_driven (driven : c.Driven) (running : c.engine.state.isRunning = true) :
    c.runPending.state.engine = c.engine.step.state ∧
      c.runPending.announced = c.engine.step.announced ∧
      c.runPending.result = c.engine.step.result.map (fun _ => 1) ∧
      (c.engine.step.result = .ok () → c.runPending.state.Driven) := by
  obtain ⟨handle, queue⟩ := driven.queue_running running
  let d : Controller α (ManualScheduler Nat) := { c with scheduler := c.scheduler.takeBatch.1 }
  have still : d.engine.state.isRunning = true := running
  obtain ⟨state, announced, result⟩ := fire_running still
  have engine := (fire_running_engine still).1
  rw [runPending_single queue]
  refine ⟨engine, announced, congrArg (Except.map fun _ => 1) result, fun ticked => ?_⟩
  have ticked : d.engine.step.result = .ok () := ticked
  change Driven (fire d d.generation).state
  rw [state]
  simp only [ticked]
  split
  · rename_i going
    exact scheduleNext_driven rfl going
  · rename_i resting
    exact Still.driven ⟨rfl, rfl⟩ (Bool.eq_false_of_not_eq_true resting)

/-- Rounds of ticks come to what as many steps of the loop come to. What the loop took on before
goes in front. -/
theorem runRounds_eq_runFrom (driven : c.Driven) {maxTicks ticks : Int} {fuel : Nat}
    (budget : (fuel : Int) = max 0 (maxTicks - ticks)) (before announced : List (PlaybackState α))
    (log loopLog : List Log.Entry) :
    let rounds := c.runRounds maxTicks fuel ticks announced log
    let loop := c.engine.runFrom fuel (announced ++ before.reverse) loopLog
    rounds.state.engine = loop.state ∧ before ++ rounds.announced = loop.announced ∧
      rounds.result.map (fun _ => ()) = loop.result := by
  induction fuel generalizing c ticks announced log loopLog with
  | zero => simp [runRounds, Engine.runFrom, Except.map]
  | succ fuel ih =>
    cases running : c.engine.state.isRunning with
    | false =>
      have queue := driven.queue_resting running
      simp [runRounds, Engine.runFrom, queue, running, Except.map]
    | true =>
      obtain ⟨handle, queue⟩ := driven.queue_running running
      obtain ⟨engine, stated, result, after⟩ := runPending_driven driven running
      have remaining : ¬ maxTicks ≤ ticks := by omega
      simp only [runRounds, Engine.runFrom, queue, running, remaining, stated, result,
        List.isEmpty_cons, decide_false, Bool.or_self, Bool.false_eq_true, if_false, if_true]
      cases ticked : c.engine.step.result with
      | error fault => simp [Except.map, engine]
      | ok _ =>
        have left : (fuel : Int) = max 0 (maxTicks - (ticks + 1)) := by omega
        have rest := ih (after ticked) left
          (c.engine.step.announced.reverse ++ announced) (c.runPending.log.reverse ++ log)
          (c.engine.step.log.reverse ++ loopLog)
        rw [engine, List.append_assoc] at rest
        exact rest

end Controller

namespace Engine
variable {α : Type} [Scalar α] {e : Engine α}

/-- Starting a run that is not running answers whether it is running then. -/
theorem start_resting (resting : e.state.isRunning = false) :
    e.start.result = .ok e.start.state.state.isRunning := by
  unfold start
  split
  · change Except.ok false = Except.ok e.state.isRunning
    rw [resting]
  · split
    · rename_i paused
      rw [resume, if_pos paused]
      rfl
    · rfl

variable [Metric α]

theorem runFrom_resting (resting : e.state.isRunning = false) {fuel : Nat}
    {announced : List (PlaybackState α)} {log : List Log.Entry} :
    e.runFrom fuel announced log = ⟨e, announced.reverse, log.reverse, .ok ()⟩ := by
  cases fuel with
  | zero => rfl
  | succ fuel => rw [runFrom, if_neg (by simp [resting])]

/-- From rest, running to completion is starting and then looping, whether or not starting gets the
run to run. -/
theorem runToCompletion_resting (resting : e.state.isRunning = false) (budget : Int) :
    let loop := e.start.state.runFrom budget.toNat e.start.announced.reverse e.start.log.reverse
    (e.runToCompletion budget).state = loop.state ∧
      (e.runToCompletion budget).announced = loop.announced ∧
      (e.runToCompletion budget).result = loop.result := by
  intro loop
  simp only [runToCompletion, resting, Bool.false_eq_true, if_false, start_resting resting]
  cases running : e.start.state.state.isRunning with
  | false =>
    simp only [loop, runFrom_resting running, List.reverse_reverse, and_self]
  | true =>
    simp only
    split
    · split <;> exact ⟨rfl, rfl, rfl⟩
    · exact ⟨rfl, rfl, rfl⟩

end Engine

namespace Controller
variable {α : Type} [Scalar α] {c : Controller α (ManualScheduler Nat)}

omit [Scalar α] in
theorem cancelPending_still (fresh : c.scheduler.queue = []) : c.cancelPending.Still := by
  refine ⟨cancelPending_pending, ?_⟩
  unfold cancelPending
  split
  · change c.scheduler.queue.filter _ = []
    rw [fresh, List.filter_nil]
  · exact fresh

/-- Starting passes on to the engine and queues the first tick if the run is running then. -/
theorem start_driven (resting : c.engine.state.isRunning = false)
    (fresh : c.scheduler.queue = []) :
    c.start.state.engine = c.engine.start.state ∧ c.start.announced = c.engine.start.announced ∧
      c.start.result = c.engine.start.result ∧ c.start.state.Driven := by
  have still := (cancelPending_still fresh).withEngine c.engine.start.state
  have answer := Engine.start_resting resting
  unfold start
  simp only [lift, Outcome.within, Outcome.andThen, cancelPending_engine, answer, Outcome.quiet,
    List.append_nil, true_and]
  split
  · rename_i running
    exact ⟨rfl, scheduleNext_driven still.queue running⟩
  · rename_i stopped
    exact ⟨rfl, still.driven (Bool.eq_false_of_not_eq_true stopped)⟩

variable [Metric α]

/-- A run that is not running, with nothing queued, goes through the same states whether it is
started and its ticks are fired until none is left or the budget is spent, or it is run to
completion by the engine's own loop with the same budget: the engine is the same in the end, the
same states are announced to its listeners in the same order, and both end with the same fault or
with none. -/
theorem start_runUntilIdle (c : Controller α (ManualScheduler Nat))
    (resting : c.engine.state.isRunning = false) (fresh : c.scheduler.queue = []) (budget : Int) :
    let driven := c.start.andThen fun c _ => c.runUntilIdle budget
    let looped := c.engine.runToCompletion budget
    driven.state.engine = looped.state ∧ driven.announced = looped.announced ∧
      driven.result.map (fun _ => ()) = looped.result := by
  intro driven looped
  obtain ⟨engine, announced, result, ready⟩ := start_driven resting fresh
  obtain ⟨state, stated, ended⟩ := Engine.runToCompletion_resting resting budget
  have steps : (budget.toNat : Int) = max 0 (budget - 0) := by omega
  have rounds :=
    runRounds_eq_runFrom ready steps c.engine.start.announced [] [] c.engine.start.log.reverse
  simp only [engine, List.nil_append] at rounds
  simp only [driven, looped, Outcome.andThen, result, Engine.start_resting resting, runUntilIdle,
    announced, state, stated, ended]
  exact rounds

/-- A run paused on its way, with just the budget that it still takes. -/
theorem start_runUntilIdle_paused :
    let paused : Engine Float :=
      (Engine.new [⟨.rapid, 1, 0, 0, 1⟩, ⟨.linear, 4, 0, 100, 2⟩] 50 25 3).performAll
        [.start, .step, .pause]
    let c : Controller Float (ManualScheduler Nat) := .new paused .empty
    c.engine.state.isRunning = false ∧ c.scheduler.queue = [] ∧
      (c.engine.runToCompletion 2).state.state.isComplete = true ∧
      (let driven := c.start.andThen fun c _ => c.runUntilIdle 2
       let looped := c.engine.runToCompletion 2
       driven.state.engine = looped.state ∧ driven.announced = looped.announced ∧
         driven.result.map (fun _ => ()) = looped.result) := by
  intro paused c
  have resting : c.engine.state.isRunning = false := by decide +kernel
  have fresh : c.scheduler.queue = [] := rfl
  exact ⟨resting, fresh, by decide +kernel, start_runUntilIdle c resting fresh 2⟩

end Controller

end Toolpath
