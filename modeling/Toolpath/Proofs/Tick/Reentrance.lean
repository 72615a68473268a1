import Mathlib
import Toolpath.Proofs.Tick.LiveTick

/-! Listeners that call the controller back while a tick is announced to them. Each call by itself
keeps the ticks in order: one is live if one is pending, and none otherwise. But a tick decides
whether to go on by the run that the listeners leave, and does not ask whether they left a tick
pending. So a second tick becomes live exactly if they leave the run running with one pending, as a
listener does that starts the run anew when it is complete. -/
namespace Toolpath

namespace Engine
variable {α : Type}

theorem pause_answers (e : Engine α) : ∃ answer, e.pause.result = .ok answer := by
  unfold pause
  split <;> exact ⟨_, rfl⟩

theorem resume_answers (e : Engine α) : ∃ answer, e.resume.result = .ok answer := by
  unfold resume
  split <;> exact ⟨_, rfl⟩

theorem start_answers [Scalar α] (e : Engine α) : ∃ answer, e.start.result = .ok answer := by
  unfold start
  split
  · exact ⟨_, rfl⟩
  · split
    · exact e.resume_answers
    · exact ⟨_, rfl⟩

end Engine

namespace Controller
variable {α σ : Type} {c : Controller α (Recorded σ)} {fired : List Nat} {place token : Nat}

/-- One tick is live if one is pending, and none otherwise. -/
structure Tracked (c : Controller α (Recorded σ)) (fired : List Nat) : Prop where
  old : ∀ token ∈ c.scheduler.tokens, token ≤ c.generation
  past : ∀ place ∈ fired, place < c.scheduler.tokens.length
  live : (c.liveTicks fired).length = if c.hasPending then 1 else 0

theorem Settled.tracked (settled : c.Settled fired) : c.Tracked fired where
  old := settled.old
  past := settled.past
  live := by rw [settled.live, hasPending, settled.pending]; rfl

theorem Tracked.settled (tracked : c.Tracked fired) (idle : c.hasPending = false) :
    c.Settled fired where
  old := tracked.old
  past := tracked.past
  live := by
    apply List.length_eq_zero_iff.mp
    rw [tracked.live, idle]
    rfl
  pending := Option.isNone_iff_eq_none.mp (Option.isSome_eq_false_iff.mp idle)

theorem new_tracked (engine : Engine α) (scheduler : σ) :
    (Controller.new engine (⟨scheduler, []⟩ : Recorded σ)).Tracked [] :=
  Settled.tracked ⟨by simp [Controller.new], by simp, rfl, rfl⟩

theorem Tracked.withEngine (tracked : c.Tracked fired) (engine : Engine α) :
    ({ c with engine } : Controller α (Recorded σ)).Tracked fired :=
  ⟨tracked.old, tracked.past, tracked.live⟩

theorem Tracked.shift (tracked : c.Tracked fired) (scheduler : σ) :
    ({ c with scheduler := { c.scheduler with scheduler } } : Controller α (Recorded σ)).Tracked
      fired :=
  ⟨tracked.old, tracked.past, tracked.live⟩

theorem Tracked.atMostOne (tracked : c.Tracked fired) : (c.liveTicks fired).length ≤ 1 := by
  rw [tracked.live]
  split <;> omega

theorem Tracked.settled_of_fired (tracked : c.Tracked fired) (member : place ∈ c.liveTicks fired) :
    ({ c with pending := none } : Controller α (Recorded σ)).Settled (place :: fired) where
  old := tracked.old
  past := past_fired tracked.past (mem_liveTicks.mp member).2
  live := liveTicks_fired tracked.atMostOne member
  pending := rfl

theorem Tracked.fired_stale (tracked : c.Tracked fired)
    (scheduled : c.scheduler.tokens[place]? = some token) (stale : token ≠ c.generation) :
    c.Tracked (place :: fired) where
  old := tracked.old
  past := past_fired tracked.past scheduled
  live := by rw [liveTicks_fired_stale scheduled stale, tracked.live]

variable [TickScheduler σ]

theorem Tracked.cancelPending (tracked : c.Tracked fired) : c.cancelPending.Settled fired :=
  cancelPending_settled tracked.old tracked.past

theorem Settled.scheduleNext_tracked (settled : c.Settled fired) :
    c.scheduleNext.Tracked fired where
  old := scheduleNext_old settled.old
  past := scheduleNext_past settled.past
  live := by
    rw [length_liveTicks_scheduleNext settled.past, settled.live]
    rfl

omit [TickScheduler σ] in
/-- What goes on with a quiet answer answers if what was before does. -/
theorem andThen_answers {o : Outcome α (Engine α) Bool}
    {next : Controller α (Recorded σ) → Bool → Controller α (Recorded σ)}
    (answers : ∃ answer, o.result = .ok answer) :
    ∃ answer, ((c.lift o).andThen fun c answer => .quiet (next c answer) answer).result =
      .ok answer := by
  obtain ⟨answer, eq⟩ := answers
  refine ⟨answer, ?_⟩
  simp only [lift, Outcome.within, Outcome.andThen, eq, Outcome.quiet]

variable [Scalar α]

/-- Every call answers, whatever the run is doing. -/
theorem perform_ok (action : Action α) : (c.perform action).result = .ok () := by
  have answered {β : Type} {o : Outcome α (Controller α (Recorded σ)) β}
      (result : ∃ answer, o.result = .ok answer) : (o.map fun _ => ()).result = .ok () := by
    obtain ⟨answer, eq⟩ := result
    rw [Outcome.map, eq]
    rfl
  have paused : ∃ answer, c.pause.result = .ok answer := c.cancelPending.engine.pause_answers
  have resumed : ∃ answer, c.resume.result = .ok answer :=
    andThen_answers c.engine.resume_answers
  cases action with
  | load moves => rfl
  | start => exact answered (andThen_answers c.cancelPending.engine.start_answers)
  | pause => exact answered paused
  | resume => exact answered resumed
  | togglePause =>
    refine answered ?_
    unfold togglePause
    split
    · exact paused
    · exact resumed
  | reset => rfl
  | setSpeed speed => rfl

/-- Any call keeps a controller tracked, whatever its run is doing. -/
theorem perform_tracked (action : Action α) (tracked : c.Tracked fired) :
    (c.perform action).state.Tracked fired := by
  have settled := tracked.cancelPending
  have paused : c.pause.state.Tracked fired := (settled.withEngine _).tracked
  have resumed : c.resume.state.Tracked fired := by
    unfold resume
    rcases Engine.resume_result c.engine with ⟨result, _⟩ | ⟨result, _⟩
    · simp only [lift, Outcome.within, Outcome.andThen, result, if_true, Outcome.quiet]
      exact (tracked.withEngine _).cancelPending.scheduleNext_tracked
    · simp only [lift, Outcome.within, Outcome.andThen, result, if_false, Bool.false_eq_true,
        Outcome.quiet]
      exact tracked.withEngine _
  cases action with
  | load moves => exact (settled.withEngine _).tracked
  | start =>
    change c.start.state.Tracked fired
    unfold start
    cases result : c.cancelPending.engine.start.result with
    | error fault =>
      simp only [lift, Outcome.within, Outcome.andThen, result]
      exact (settled.withEngine _).tracked
    | ok started =>
      simp only [lift, Outcome.within, Outcome.andThen, result, Outcome.quiet]
      split
      · exact (settled.withEngine _).scheduleNext_tracked
      · exact (settled.withEngine _).tracked
  | pause => exact paused
  | resume => exact resumed
  | togglePause =>
    change c.togglePause.state.Tracked fired
    unfold togglePause
    split
    · exact paused
    · exact resumed
  | reset => exact (settled.withEngine _).tracked
  | setSpeed speed => exact tracked.withEngine _

/-- Calls one after the other, up to one that has a fault. -/
def performAll (c : Controller α (Recorded σ)) :
    List (Action α) → Outcome α (Controller α (Recorded σ)) Unit
  | [] => .quiet c ()
  | action :: rest => (c.perform action).andThen fun c _ => c.performAll rest

theorem performAll_tracked (calls : List (Action α)) (tracked : c.Tracked fired) :
    (c.performAll calls).state.Tracked fired ∧ (c.performAll calls).result = .ok () := by
  induction calls generalizing c with
  | nil => exact ⟨tracked, rfl⟩
  | cons action rest ih =>
    rw [performAll, Outcome.andThen, perform_ok]
    exact ih (perform_tracked action tracked)

variable [Metric α]

/-- A listener that makes some calls when a tick is announced to it. -/
def calling (calls : List (Action α)) : Reaction α (Recorded σ) := fun c => c.performAll calls

/-- The controller as such a listener leaves it to a tick, which has still to decide whether to go
on. -/
def told (c : Controller α (Recorded σ)) (calls : List (Action α)) : Controller α (Recorded σ) :=
  ((({ c with pending := none } : Controller α (Recorded σ)).lift c.engine.step).andThen
    fun c _ => calling calls c).state

/-- Whether a tick steps a run that the listener then leaves running with a tick pending. -/
def doubles (c : Controller α (Recorded σ)) (token : Nat) (calls : List (Action α)) : Bool :=
  token == c.generation && c.engine.state.isRunning &&
    ((c.told calls).hasPending && (c.told calls).engine.state.isRunning)

/-- The listener hears of the tick only if the step has no fault. -/
theorem told_failed (calls : List (Action α)) {fault : Fault}
    (failed : c.engine.step.result = .error fault) :
    c.told calls = { c with engine := c.engine.step.state, pending := none } := by
  simp only [told, lift, Outcome.within, Outcome.andThen, failed]

theorem told_tracked (calls : List (Action α))
    (settled : ({ c with pending := none } : Controller α (Recorded σ)).Settled fired) :
    (c.told calls).Tracked fired := by
  have stepped := (settled.withEngine c.engine.step.state).tracked
  cases result : c.engine.step.result with
  | error fault =>
    rw [told_failed calls result]
    exact stepped
  | ok _ =>
    simp only [told, lift, Outcome.within, Outcome.andThen, result]
    exact (performAll_tracked calls stepped).1

/-- A tick of the current generation goes on from what the listener leaves. -/
theorem fireWith_running (calls : List (Action α)) (running : c.engine.state.isRunning = true)
    (settled : ({ c with pending := none } : Controller α (Recorded σ)).Settled fired) :
    (c.fireWith (calling calls) c.generation).state =
      match c.engine.step.result with
      | .error _ => c.told calls
      | .ok _ =>
        if (c.told calls).engine.state.isRunning then (c.told calls).scheduleNext
        else c.told calls := by
  have answers := (performAll_tracked calls (settled.withEngine c.engine.step.state).tracked).2
  rw [fireWith, if_neg (not_not.mpr rfl)]
  simp only [running, if_true]
  cases result : c.engine.step.result with
  | error fault =>
    simp only [told_failed calls result, lift, Outcome.within, Outcome.andThen, result]
  | ok _ =>
    simp only [told, calling, lift, Outcome.within, Outcome.andThen, result, answers]
    exact afterTick_state _

/-- A tick leaves a controller tracked, unless the listener leaves the run running with a tick
pending; then two are live. -/
theorem fireWith_tracked (calls : List (Action α)) (tracked : c.Tracked fired)
    (scheduled : c.scheduler.tokens[place]? = some token) (unfired : place ∉ fired) :
    let after := (c.fireWith (calling calls) token).state
    if c.doubles token calls then
      (after.liveTicks (place :: fired)).length = 2
    else after.Tracked (place :: fired) := by
  intro after
  by_cases current : token = c.generation
  · subst current
    have settled := tracked.settled_of_fired (mem_liveTicks.mpr ⟨unfired, scheduled⟩)
    have told := told_tracked calls settled
    cases running : c.engine.state.isRunning with
    | false =>
      rw [if_neg (by simp [doubles, running])]
      have state : after = { c with pending := none } := by
        change (c.fireWith (calling calls) c.generation).state = _
        simp [fireWith, running, Outcome.quiet]
      rw [state]
      exact settled.tracked
    | true =>
      have state : after = _ := fireWith_running calls running settled
      rw [state]
      cases stepped : c.engine.step.result with
      | error fault =>
        rw [if_neg (by simp [doubles, told_failed calls stepped, hasPending])]
        exact told
      | ok _ =>
        cases still : (c.told calls).engine.state.isRunning with
        | false =>
          rw [if_neg (by simp [doubles, still])]
          exact told
        | true =>
          cases pending : (c.told calls).hasPending with
          | false =>
            rw [if_neg (by simp [doubles, pending])]
            exact (told.settled pending).scheduleNext_tracked
          | true =>
            -- The listener's own tick is live already when the one that is ending goes on.
            rw [if_pos (by simp [doubles, running, pending, still]), if_pos rfl]
            rw [length_liveTicks_scheduleNext told.past, told.live, pending]
            rfl
  · rw [if_neg (by simp [doubles, current])]
    have state : after = c := by
      change (c.fireWith (calling calls) token).state = c
      rw [fireWith, if_pos current]
      rfl
    rw [state]
    exact tracked.fired_stale scheduled current

/-- The controllers that calls from outside and ticks lead to, in any order, with the places of the
ticks that have fired. A listener answers each tick with calls, which so far have not made a second
tick live. -/
inductive Heard (first : Controller α (Recorded σ)) :
    Controller α (Recorded σ) → List Nat → Prop where
  | new : Heard first first []
  | call {c : Controller α (Recorded σ)} {fired : List Nat} (action : Action α) :
      Heard first c fired → Heard first (c.perform action).state fired
  | tick {c : Controller α (Recorded σ)} {fired : List Nat} {place token : Nat}
      (calls : List (Action α)) :
      Heard first c fired → c.scheduler.tokens[place]? = some token → place ∉ fired →
      c.doubles token calls = false →
      Heard first (c.fireWith (calling calls) token).state (place :: fired)
  | shift {c : Controller α (Recorded σ)} {fired : List Nat} (scheduler : σ) :
      Heard first c fired →
      Heard first { c with scheduler := { c.scheduler with scheduler } } fired

theorem Heard.tracked {first : Controller α (Recorded σ)} (begun : first.Tracked [])
    (heard : Heard first c fired) : c.Tracked fired := by
  induction heard with
  | new => exact begun
  | call action _ ih => exact perform_tracked action ih
  | tick calls _ scheduled unfired single ih =>
    have after := fireWith_tracked calls ih scheduled unfired
    rwa [single, if_neg Bool.false_ne_true] at after
  | shift scheduler _ ih => exact ih.shift scheduler

/-- When a tick returns, whatever calls a listener answered it with, one tick is live at most,
unless the listener left the run that the tick had stepped running with a tick pending. Then two
are. -/
theorem live_after_tick (engine : Engine α) (scheduler : σ)
    (heard : Heard (Controller.new engine (⟨scheduler, []⟩ : Recorded σ)) c fired)
    (scheduled : c.scheduler.tokens[place]? = some token) (unfired : place ∉ fired)
    (calls : List (Action α)) :
    let after := (c.fireWith (calling calls) token).state
    if c.doubles token calls then (after.liveTicks (place :: fired)).length = 2
    else (after.liveTicks (place :: fired)).length ≤ 1 := by
  intro after
  have tracked := heard.tracked (new_tracked engine scheduler)
  have step := fireWith_tracked calls tracked scheduled unfired
  split
  · rename_i second
    rwa [if_pos second] at step
  · rename_i single
    rw [if_neg single] at step
    exact step.atMostOne

theorem live_after_tick_resumed :
    let first : Controller Float (Recorded KeepingScheduler) :=
      .new (.new [⟨.linear, 10, 0, 100, 1⟩] 50 25 3) ⟨.empty, []⟩
    let c := (first.perform .start).state
    Heard first c [] ∧ c.scheduler.tokens[0]? = some 1 ∧
      ((c.fireWith (calling [.resume, .setSpeed 80]) 1).state.liveTicks [0]).length ≤ 1 := by
  intro first c
  have heard : Heard first c [] := .call .start .new
  have scheduled : c.scheduler.tokens[0]? = some 1 := rfl
  have after := live_after_tick _ _ heard scheduled List.not_mem_nil [.resume, .setSpeed 80]
  rw [if_neg (by decide +kernel)] at after
  exact ⟨heard, scheduled, after⟩

/-- A listener that starts the run anew when it is complete makes a second tick live, and so does a
tick that fires again. -/
theorem restart_doubles_ticks :
    let restart : Reaction Float (Recorded KeepingScheduler) := fun c =>
      if c.engine.state.isComplete then c.performAll [.start] else noReaction c
    let started (x : Float) : Controller Float (Recorded KeepingScheduler) :=
      ((Controller.new (.new [⟨.linear, x, 0, 100, 1⟩] 50 25 3) ⟨.empty, []⟩).perform .start).state
    (started 1).liveTicks [] = [0] ∧
      ((started 1).fireWith restart 1).state.liveTicks [0] = [1, 2] ∧
      (((started 10).fire 1).state.fire 1).state.liveTicks [0] = [1, 2] := by
  decide +kernel

end Controller

end Toolpath
