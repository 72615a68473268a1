import Mathlib
import Toolpath.Proofs.Tick.Reentrance

/-! Pausing leaves no trace in the path. A run that was started and is then paused and resumed at
any moments, while ticks fire that were cancelled, is the run without interruptions: after as many
live ticks as that one had steps it is where that one is, at most paused instead of running. What
carries this is that a tick is live only while the run is running, and then steps the engine as it
would have been stepped anyway. -/
namespace Toolpath

theorem map_eq_ok {ε α β : Type} {f : α → β} {x : Except ε α} {b : β}
    (mapped : x.map f = .ok b) : ∃ a, x = .ok a ∧ f a = b := by
  cases x with
  | error fault => cases mapped
  | ok a => exact ⟨a, rfl, Except.ok.inj mapped⟩

namespace Engine
variable {α : Type} [Scalar α] {e d : Engine α}

/-- Starting answers yes only if the run is running then. -/
theorem start_true (started : e.start.result = .ok true) :
    e.start.state.state.isRunning = true := by
  unfold start at started ⊢
  split at started
  · cases started
  · rename_i loaded
    rw [if_neg loaded]
    split at started
    · rename_i paused
      rw [if_pos paused, resume, if_pos paused]
      rfl
    · rename_i unpaused
      rw [if_neg unpaused]
      rfl

omit [Scalar α] in
theorem not_paused_of_running (running : e.state.isRunning = true) : e.state.isPaused = false := by
  simp only [PlaybackState.isRunning, decide_eq_true_eq] at running
  simp [PlaybackState.isPaused, running]

/-- The engine `d` has the run of `e`, which is not paused, up to a pause. -/
structure Interrupts (d e : Engine α) : Prop where
  unpaused : e.state.isPaused = false
  same : d = e ∨
    e.state.isRunning = true ∧ d = { e with state := { e.state with status := .paused } }

omit [Scalar α] in
theorem Interrupts.of_running (interrupts : d.Interrupts e) (running : d.state.isRunning = true) :
    d = e := by
  rcases interrupts.same with same | ⟨_, rfl⟩
  · exact same
  · cases running

omit [Scalar α] in
theorem Interrupts.pause (interrupts : d.Interrupts e) : d.pause.state.Interrupts e := by
  refine ⟨interrupts.unpaused, ?_⟩
  unfold Engine.pause
  split
  · rename_i running
    obtain rfl := interrupts.of_running running
    exact .inr ⟨running, rfl⟩
  · exact interrupts.same

omit [Scalar α] in
theorem Interrupts.resume (interrupts : d.Interrupts e) : d.resume.state.Interrupts e := by
  refine ⟨interrupts.unpaused, ?_⟩
  unfold Engine.resume
  split
  · rename_i paused
    rcases interrupts.same with rfl | ⟨running, rfl⟩
    · rw [interrupts.unpaused] at paused
      cases paused
    · simp only [PlaybackState.isRunning, decide_eq_true_eq] at running
      refine .inl ?_
      simp only [enter, ← running]
  · exact interrupts.same

/-- Starting a paused run is resuming it. -/
theorem Interrupts.start (interrupts : d.Interrupts e) (paused : d.state.isPaused = true) :
    d.start.state.Interrupts e := by
  unfold Engine.start
  split
  · exact interrupts
  · exact interrupts.resume

variable [Metric α]

/-- A step never pauses a run. -/
theorem step_unpaused (unpaused : e.state.isPaused = false) :
    e.step.state.state.isPaused = false := by
  unfold step
  split
  · split
    · rename_i state stepped
      change state.isPaused = false
      obtain ⟨⟨_, _⟩, carried, rfl⟩ := map_eq_ok stepped
      obtain ⟨advance, _, eq⟩ := map_eq_ok carried
      cases advance <;> cases eq
      · exact unpaused
      · rfl
      · simp only [PlaybackState.isPaused, PlaybackState.arrive]
        split <;> rfl
      · exact unpaused
    · exact unpaused
  · exact unpaused

theorem Interrupts.step (interrupts : d.Interrupts e) (running : d.state.isRunning = true) :
    d.step.state.Interrupts e.step.state := by
  obtain rfl := interrupts.of_running running
  exact ⟨step_unpaused interrupts.unpaused, .inl rfl⟩

end Engine

namespace Controller
variable {α σ : Type} {c d : Controller α (Recorded σ)} {fired : List Nat} {place token : Nat}

/-- The calls that interrupt a run and go on with it. Starting is one of them while the run is
paused. -/
def Action.interrupts (paused : Bool) : Action α → Bool
  | .pause | .resume | .togglePause => true
  | .start => paused
  | .load _ | .reset | .setSpeed _ => false

/-- Every tick that was ever scheduled is of an earlier generation. -/
def Stale (c : Controller α (Recorded σ)) : Prop := ∀ token ∈ c.scheduler.tokens, token < c.generation

section Aftermath
variable [TickScheduler σ]

/-- What an interruption comes to: the run is running, or everything is as it was, or nothing is
pending and all ticks are stale. -/
inductive Aftermath (c d : Controller α (Recorded σ)) : Prop where
  | ignored (eq : d = c)
  | running (running : d.engine.state.isRunning = true)
  | cancelled (idle : d.pending = none) (stale : d.Stale)

theorem Aftermath.of_cancelled (old : ∀ token ∈ c.scheduler.tokens, token ≤ c.generation)
    (engine : Engine α) : Aftermath c { c.cancelPending with engine } :=
  .cancelled cancelPending_pending (cancelPending_stale old)

theorem resume_aftermath : Aftermath c c.resume.state := by
  unfold resume
  rcases Engine.resume_result c.engine with ⟨result, running⟩ | ⟨result, unchanged⟩
  · simp only [lift, Outcome.within, Outcome.andThen, result, if_true, Outcome.quiet]
    refine .running ?_
    rw [cancelPending_withEngine]
    exact running
  · simp only [lift, Outcome.within, Outcome.andThen, result, if_false, Bool.false_eq_true,
      Outcome.quiet, unchanged]
    exact .ignored rfl

theorem perform_aftermath [Scalar α] {action : Action α} {paused : Bool}
    (old : ∀ token ∈ c.scheduler.tokens, token ≤ c.generation)
    (interrupts : action.interrupts paused = true) : Aftermath c (c.perform action).state := by
  cases action with
  | pause => exact .of_cancelled old _
  | resume => exact resume_aftermath
  | togglePause =>
    change Aftermath c c.togglePause.state
    unfold togglePause
    split
    · exact .of_cancelled old _
    · exact resume_aftermath
  | start =>
    change Aftermath c c.start.state
    obtain ⟨started, result⟩ := c.cancelPending.engine.start_answers
    unfold start
    simp only [lift, Outcome.within, Outcome.andThen, result, Outcome.quiet]
    cases started with
    | true => exact .running (Engine.start_true result)
    | false => exact .of_cancelled old _
  | load _ | reset | setSpeed _ => cases interrupts

end Aftermath

variable [Scalar α] {e : Engine α}

/-- An interrupted run beside the run `e` that is not interrupted. -/
structure Keeps (c : Controller α (Recorded σ)) (fired : List Nat) (e : Engine α) : Prop where
  tracked : c.Tracked fired
  pending : c.hasPending = true → c.engine.state.isRunning = true
  stale : c.engine.state.isPaused = true → c.Stale
  engine : c.engine.Interrupts e

omit [Scalar α] in
/-- A tick is live only while the run is running. -/
theorem Keeps.running (keeps : c.Keeps fired e) (member : place ∈ c.liveTicks fired) :
    c.engine.state.isRunning = true := by
  have count := keeps.tracked.live
  apply keeps.pending
  by_contra idle
  rw [if_neg idle] at count
  exact (List.length_pos_of_mem member).ne' count

variable [TickScheduler σ]

theorem Keeps.started (tracked : c.Tracked fired) (started : c.start.result = .ok true) :
    c.start.state.Keeps fired c.start.state.engine := by
  have running : c.start.state.engine.state.isRunning = true := by
    obtain ⟨answer, result⟩ := c.cancelPending.engine.start_answers
    unfold start at started ⊢
    simp only [lift, Outcome.within, Outcome.andThen, result, Outcome.quiet, Except.ok.injEq]
      at started ⊢
    subst started
    exact Engine.start_true result
  have unpaused := Engine.not_paused_of_running running
  refine ⟨perform_tracked .start tracked, fun _ => running, fun paused => ?_, unpaused, .inl rfl⟩
  rw [unpaused] at paused
  cases paused

variable [Metric α]

/-- Interrupting keeps the run, whatever the moment. -/
theorem Keeps.perform (keeps : c.Keeps fired e) {action : Action α}
    (interrupts : action.interrupts c.engine.state.isPaused = true) :
    (c.perform action).state.Keeps fired e := by
  have engine : (c.perform action).state.engine.Interrupts e := by
    rw [perform_engine]
    cases action with
    | pause => exact keeps.engine.pause
    | resume => exact keeps.engine.resume
    | togglePause =>
      change c.engine.togglePause.state.Interrupts e
      unfold Engine.togglePause
      split
      · exact keeps.engine.pause
      · exact keeps.engine.resume
    | start => exact keeps.engine.start interrupts
    | load _ | reset | setSpeed _ => cases interrupts
  have tracked := perform_tracked action keeps.tracked
  cases perform_aftermath keeps.tracked.old interrupts with
  | ignored eq =>
    rw [eq]
    exact keeps
  | running running =>
    refine ⟨tracked, fun _ => running, fun paused => ?_, engine⟩
    rw [Engine.not_paused_of_running running] at paused
    cases paused
  | cancelled idle stale =>
    refine ⟨tracked, fun pending => ?_, fun _ => stale, engine⟩
    rw [hasPending, idle] at pending
    cases pending

/-- A tick to which no listener reacts never makes a second one live. -/
theorem Tracked.fire (tracked : c.Tracked fired)
    (scheduled : c.scheduler.tokens[place]? = some token) (unfired : place ∉ fired) :
    (c.fire token).state.Tracked (place :: fired) := by
  have idle : (c.told []).hasPending = false := by
    cases result : c.engine.step.result with
    | error fault =>
      rw [told_failed [] result]
      rfl
    | ok _ =>
      simp only [told, lift, Outcome.within, Outcome.andThen, result]
      rfl
  have ticked := fireWith_tracked [] tracked scheduled unfired
  rwa [doubles, idle, Bool.false_and, Bool.and_false, if_neg Bool.false_ne_true] at ticked

/-- A live tick takes both runs one step on. -/
theorem Keeps.fire (keeps : c.Keeps fired e) (member : place ∈ c.liveTicks fired) :
    (c.fire c.generation).state.Keeps (place :: fired) e.step.state := by
  obtain ⟨unfired, scheduled⟩ := mem_liveTicks.mp member
  have running := keeps.running member
  have unpaused := Engine.step_unpaused (Engine.not_paused_of_running running)
  obtain ⟨engine, pending⟩ := fire_running_engine running
  refine ⟨keeps.tracked.fire scheduled unfired, ?_, ?_, ?_⟩
  · rw [engine]
    exact pending
  · rw [engine, unpaused]
    rintro ⟨⟩
  · rw [engine]
    exact keeps.engine.step running

/-- The controllers that a started run is led to by interruptions, live ticks and stale ones in any
order, with the places of the ticks that have fired and the number of those that were live. A live
tick has not fired and carries the current generation; a stale one carries an earlier generation,
and may fire again and again. In between the scheduler may do to itself what it likes. -/
inductive Interrupted (first : Controller α (Recorded σ)) (spent : List Nat) :
    Controller α (Recorded σ) → List Nat → Nat → Prop where
  | begun : Interrupted first spent first spent 0
  | call {c : Controller α (Recorded σ)} {fired : List Nat} {ticks : Nat} {action : Action α} :
      Interrupted first spent c fired ticks →
      action.interrupts c.engine.state.isPaused = true →
      Interrupted first spent (c.perform action).state fired ticks
  | live {c : Controller α (Recorded σ)} {fired : List Nat} {ticks place : Nat} :
      Interrupted first spent c fired ticks → place ∈ c.liveTicks fired →
      Interrupted first spent (c.fire c.generation).state (place :: fired) (ticks + 1)
  | stale {c : Controller α (Recorded σ)} {fired : List Nat} {ticks token : Nat} :
      Interrupted first spent c fired ticks → token ∈ c.scheduler.tokens → token ≠ c.generation →
      Interrupted first spent (c.fire token).state fired ticks
  | shift {c : Controller α (Recorded σ)} {fired : List Nat} {ticks : Nat} (scheduler : σ) :
      Interrupted first spent c fired ticks →
      Interrupted first spent { c with scheduler := { c.scheduler with scheduler } } fired ticks

theorem Reached.tracked {first : Controller α (Recorded σ)} (begun : first.Tracked [])
    (reached : Reached first c fired) : c.Tracked fired := by
  induction reached with
  | new => exact begun
  | call action _ ih => exact perform_tracked action ih
  | fire _ scheduled unfired ih => exact ih.fire scheduled unfired
  | shift scheduler _ ih => exact ih.shift scheduler

theorem Interrupted.keeps {first : Controller α (Recorded σ)} {spent : List Nat} {ticks : Nat}
    (begun : first.Keeps spent first.engine)
    (interrupted : Interrupted first spent c fired ticks) :
    c.Keeps fired ((fun e : Engine α => e.step.state)^[ticks] first.engine) := by
  induction interrupted with
  | begun => exact begun
  | call _ interrupts ih => exact ih.perform interrupts
  | live _ member ih =>
    rw [Function.iterate_succ_apply']
    exact ih.fire member
  | stale _ _ stale ih =>
    rw [(fire_stale stale).1]
    exact ih
  | shift scheduler _ ih => exact ⟨ih.tracked.shift scheduler, ih.pending, ih.stale, ih.engine⟩

/-- A run that is started, over whatever was done before, and then interrupted by pausing and going
on, while live and stale ticks fire in any order, is after some live ticks in the state of the run
that has had as many steps without interruption, but for the status, which may be paused where that
run is running. While it is paused no tick that was ever scheduled does anything. -/
theorem pausing_keeps_path (engine : Engine α) (scheduler : σ) {before : Controller α (Recorded σ)}
    {spent : List Nat} {ticks : Nat}
    (reached : Reached (Controller.new engine (⟨scheduler, []⟩ : Recorded σ)) before spent)
    (started : before.start.result = .ok true)
    (interrupted : Interrupted before.start.state spent c fired ticks) :
    let straight := (fun e : Engine α => e.step.state)^[ticks] before.start.state.engine
    (∃ status, c.engine.state = { straight.state with status } ∧
      (status = straight.state.status ∨ status = .paused ∧ straight.state.status = .running)) ∧
    (c.engine.state.status = .paused → ∀ token ∈ c.scheduler.tokens,
      (c.fire token).state = c ∧ (c.fire token).announced = [] ∧
        (c.fire token).result = .ok ()) := by
  intro straight
  have tracked := reached.tracked (new_tracked engine scheduler)
  have keeps := interrupted.keeps (.started tracked started)
  refine ⟨?_, fun paused token member => fire_stale ?_⟩
  · rcases keeps.engine.same with same | ⟨running, same⟩
    · exact ⟨straight.state.status, by rw [same], .inl rfl⟩
    · refine ⟨.paused, by rw [same], .inr ⟨rfl, ?_⟩⟩
      exact PlaybackState.isRunning_iff.mp running
  · exact (keeps.stale (PlaybackState.isPaused_iff.mpr paused) token member).ne

/-- A run that is paused, disturbed by a stale tick, resumed and paused again, with a live tick
before and one after the first pause. -/
theorem pausing_keeps_path_disturbed :
    let first : Controller Float (Recorded KeepingScheduler) :=
      .new (.new [⟨.linear, 10, 0, 100, 1⟩] 50 25 3) ⟨.empty, []⟩
    let begun := first.start.state
    let paused := ((begun.fire begun.generation).state.perform .pause).state
    let resumed := ((paused.fire 1).state.perform .togglePause).state
    let c := ((resumed.fire resumed.generation).state.perform .pause).state
    Reached first first [] ∧ first.start.result = .ok true ∧ Interrupted begun [] c [2, 0] 2 ∧
      c.engine.state.status = .paused ∧
      (let straight := (fun e : Engine Float => e.step.state)^[2] begun.engine
       (∃ status, c.engine.state = { straight.state with status } ∧
          (status = straight.state.status ∨
            status = .paused ∧ straight.state.status = .running)) ∧
        (c.engine.state.status = .paused → ∀ token ∈ c.scheduler.tokens,
          (c.fire token).state = c ∧ (c.fire token).announced = [] ∧
            (c.fire token).result = .ok ())) := by
  intro first begun paused resumed c
  have ticked : Interrupted begun [] (begun.fire begun.generation).state [0] 1 :=
    .live .begun (by decide)
  have disturbed : Interrupted begun [] (paused.fire 1).state [0] 1 :=
    .stale (.call ticked rfl) (by decide +kernel) (by decide +kernel)
  have again : Interrupted begun [] (resumed.fire resumed.generation).state [2, 0] 2 :=
    .live (.call disturbed rfl) (by decide +kernel)
  have interrupted : Interrupted begun [] c [2, 0] 2 := .call again rfl
  exact ⟨.new, rfl, interrupted, by decide +kernel, pausing_keeps_path _ _ .new rfl interrupted⟩

end Controller
end Toolpath
