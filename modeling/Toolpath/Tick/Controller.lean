import Toolpath.Playback.Engine
import Toolpath.Tick.Scheduler

/-! A controller drives an engine from a scheduler of ticks. Each tick is scheduled with the generation that is
current then, and every cancellation begins a new generation, so a tick that fires although it was cancelled
does nothing. A listener may call the controller while a tick is announced; `fireWith` takes what it does. -/
namespace Toolpath

structure Controller (α σ : Type) where
  engine : Engine α
  scheduler : σ
  pending : Option Nat
  generation : Nat

namespace Controller
variable {α σ : Type}

def logSource : String := "core.simulation_controller"

def new (engine : Engine α) (scheduler : σ) : Controller α σ := ⟨engine, scheduler, none, 0⟩

def hasPending (c : Controller α σ) : Bool := c.pending.isSome

/-- What an operation on the engine comes to for a controller. -/
def lift {β : Type} (c : Controller α σ) (o : Outcome α (Engine α) β) : Outcome α (Controller α σ) β :=
  o.within fun engine => { c with engine }

variable [TickScheduler σ]

def scheduleNext (c : Controller α σ) : Controller α σ :=
  let (scheduler, handle) := TickScheduler.schedule c.scheduler c.generation
  { c with scheduler, pending := some handle }

/-- Cancels the pending tick and begins a new generation. -/
def cancelPending (c : Controller α σ) : Controller α σ :=
  match c.pending with
  | some handle =>
    { c with
      scheduler := TickScheduler.cancel c.scheduler handle
      pending := none
      generation := c.generation + 1 }
  | none => { c with generation := c.generation + 1 }

variable [Scalar α]

def load (c : Controller α σ) (moves : List (Move α)) : Outcome α (Controller α σ) Unit :=
  let c := c.cancelPending
  c.lift (c.engine.load moves)

/-- Starts or goes on, and schedules the first tick. -/
def start (c : Controller α σ) : Outcome α (Controller α σ) Bool :=
  let c := c.cancelPending
  (c.lift c.engine.start).andThen fun c started => .quiet (if started then c.scheduleNext else c) started

def pause (c : Controller α σ) : Outcome α (Controller α σ) Bool :=
  let c := c.cancelPending
  c.lift c.engine.pause

def resume (c : Controller α σ) : Outcome α (Controller α σ) Bool :=
  (c.lift c.engine.resume).andThen fun c resumed =>
    .quiet (if resumed then c.cancelPending.scheduleNext else c) resumed

def togglePause (c : Controller α σ) : Outcome α (Controller α σ) Bool :=
  if c.engine.state.isRunning then c.pause else c.resume

def reset (c : Controller α σ) : Outcome α (Controller α σ) Unit :=
  let c := c.cancelPending
  c.lift c.engine.reset

def setSpeed (c : Controller α σ) (speed : Int) : Controller α σ := { c with engine := c.engine.setSpeed speed }

def completeNote (c : Controller α σ) : Log.Entry :=
  Log.info logSource ("Playback complete: " ++ toString c.engine.moves.length ++ " commands")

/-- After a tick: schedules the next one while the run goes on, and notes its end. -/
def afterTick (c : Controller α σ) : Outcome α (Controller α σ) Unit :=
  if c.engine.state.isRunning then .quiet c.scheduleNext ()
  else if c.engine.state.isComplete then .noted c [c.completeNote] ()
  else .quiet c ()

/-- What listeners do with a controller while a tick's state is announced to them. -/
abbrev Reaction (α σ : Type) := Controller α σ → Outcome α (Controller α σ) Unit

def noReaction : Reaction α σ := fun c => .quiet c ()

variable [Metric α]

/-- A scheduled tick fires. A tick of an earlier generation is dropped. -/
def fireWith (react : Reaction α σ) (c : Controller α σ) (generation : Nat) : Outcome α (Controller α σ) Unit :=
  if generation ≠ c.generation then
    .noted c [Log.debug logSource "Dropping stale playback tick"] ()
  else
    let c := { c with pending := none }
    if c.engine.state.isRunning then
      ((c.lift c.engine.step).andThen fun c _ => react c).andThen fun c _ => c.afterTick
    else .quiet c ()

def fire (c : Controller α σ) (generation : Nat) : Outcome α (Controller α σ) Unit :=
  c.fireWith noReaction generation

/-- Fires ticks one after the other until one has a fault. -/
def fireAll (c : Controller α σ) : List Nat → Outcome α (Controller α σ) Unit
  | [] => .quiet c ()
  | generation :: rest => (c.fire generation).andThen fun c _ => c.fireAll rest

end Controller

namespace Controller
variable {α : Type} [Scalar α] [Metric α]

/-- Fires what is queued now and answers how much it was. -/
def runPending (c : Controller α (ManualScheduler Nat)) : Outcome α (Controller α (ManualScheduler Nat)) Nat :=
  let (scheduler, batch) := c.scheduler.takeBatch
  ({ c with scheduler }.fireAll (batch.map Prod.snd)).andThen fun c _ => .quiet c batch.length

/-- Fires until nothing is queued or `maxTicks` have fired, `ticks` of them before; each round fires at least
one, so `maxTicks` rounds are enough. What came before is collected last first. -/
def runRounds (maxTicks : Int) (fuel : Nat) (ticks : Int) (c : Controller α (ManualScheduler Nat))
    (announced : List (PlaybackState α)) (log : List Log.Entry) :
    Outcome α (Controller α (ManualScheduler Nat)) Int :=
  match fuel with
  | 0 => ⟨c, announced.reverse, log.reverse, .ok ticks⟩
  | fuel + 1 =>
    if c.scheduler.queue.isEmpty || decide (maxTicks ≤ ticks) then
      ⟨c, announced.reverse, log.reverse, .ok ticks⟩
    else
      let o := c.runPending
      let announced := o.announced.reverse ++ announced
      let log := o.log.reverse ++ log
      match o.result with
      | .ok fired => runRounds maxTicks fuel (ticks + fired) o.state announced log
      | .error fault => ⟨o.state, announced.reverse, log.reverse, .error fault⟩

def runUntilIdle (c : Controller α (ManualScheduler Nat)) (maxTicks : Int) :
    Outcome α (Controller α (ManualScheduler Nat)) Int :=
  runRounds maxTicks maxTicks.toNat 0 c [] []

/-- A kept tick fires, cancelled or not. -/
def fireKept (c : Controller α KeepingScheduler) (index : Int) :
    Outcome α (Controller α KeepingScheduler) Unit :=
  match c.scheduler.token? index with
  | some generation => c.fire generation
  | none => .failed c .noSuchTick

def expire (c : Controller α (TimerScheduler Nat)) (handle : Nat) :
    Outcome α (Controller α (TimerScheduler Nat)) Unit :=
  let (scheduler, token?) := c.scheduler.expire handle
  match token? with
  | some generation => { c with scheduler }.fire generation
  | none => .quiet { c with scheduler } ()

end Controller

end Toolpath
