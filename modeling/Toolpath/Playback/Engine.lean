import Toolpath.Playback.Outcome

/-! A playback engine owns one run over one list of moves. It runs from idle through running, which may be
paused, to complete; starting anew and resetting begin at the origin again. -/
namespace Toolpath

structure Engine (α : Type) where
  moves : List (Move α)
  state : PlaybackState α
  speed : Int
  divisor : α
  rapidFactor : α
  /-- In the order of their registration; a name may be there more than once. -/
  listeners : List String

namespace Engine
variable {α : Type}

/-- Every state announced goes to each listener in the order of registration. -/
def deliveries (e : Engine α) (announced : List (PlaybackState α)) : List (String × PlaybackState α) :=
  announced.flatMap fun state => e.listeners.map fun name => (name, state)

def minSpeed : Int := 1
def maxSpeed : Int := 100

def clampSpeed (speed : Int) : Int := max minSpeed (min maxSpeed speed)

def logSource : String := "core.playback"

variable [Scalar α]

def new (moves : List (Move α)) (speed : Int) (divisor rapidFactor : α) : Engine α :=
  ⟨moves, .initial, clampSpeed speed, divisor, rapidFactor, []⟩

def pace (e : Engine α) : Pace α := ⟨Scalar.ofInt e.speed, e.divisor, e.rapidFactor⟩

def progress (e : Engine α) : Except Fault α := e.state.progress e.moves.length

/-- A percentage, kept between 1 and 100; it counts from the next tick on. -/
def setSpeed (e : Engine α) (speed : Int) : Engine α := { e with speed := clampSpeed speed }

def addListener (e : Engine α) (name : String) : Engine α := { e with listeners := e.listeners ++ [name] }

/-- Drops the first registration of a name; one that is not there is ignored. -/
def removeListener (e : Engine α) (name : String) : Engine α := { e with listeners := e.listeners.erase name }

def ignore {β : Type} (e : Engine α) (note : String) (answer : β) : Outcome α (Engine α) β :=
  .noted e [Log.debug logSource note] answer

def changeNote (before after : PlaybackStatus) : List Log.Entry :=
  if before = after then []
  else [Log.debug logSource ("Playback " ++ before.name ++ " -> " ++ after.name)]

def enter {β : Type} (e : Engine α) (state : PlaybackState α) (answer : β) : Outcome α (Engine α) β :=
  ⟨{ e with state }, [state], changeNote e.state.status state.status, .ok answer⟩

def reset (e : Engine α) : Outcome α (Engine α) Unit := e.enter .initial ()

/-- Replaces the moves; the run starts over. -/
def load (e : Engine α) (moves : List (Move α)) : Outcome α (Engine α) Unit := { e with moves }.reset

def resume (e : Engine α) : Outcome α (Engine α) Bool :=
  if e.state.isPaused then e.enter { e.state with status := .running } true
  else e.ignore ("Resume ignored in state " ++ e.state.status.name) false

def pause (e : Engine α) : Outcome α (Engine α) Bool :=
  if e.state.isRunning then e.enter { e.state with status := .paused } true
  else e.ignore ("Pause ignored in state " ++ e.state.status.name) false

/-- Goes on with a paused run and starts over otherwise; without moves it does nothing. -/
def start (e : Engine α) : Outcome α (Engine α) Bool :=
  if e.moves.isEmpty then e.ignore "Start ignored: no commands loaded" false
  else if e.state.isPaused then e.resume
  else e.enter { PlaybackState.initial with status := .running } true

def togglePause (e : Engine α) : Outcome α (Engine α) Bool := if e.state.isRunning then e.pause else e.resume

variable [Metric α]

/-- One tick, which does nothing unless the run is running. -/
def step (e : Engine α) : Outcome α (Engine α) Unit :=
  if e.state.isRunning then
    match e.state.step e.moves e.pace with
    | .ok state => e.enter state ()
    | .error fault => .failed e fault
  else .quiet e ()

/-- Ticks until the run no longer runs, `fuel` at most; what came before is collected last first. -/
def runFrom (fuel : Nat) (e : Engine α) (announced : List (PlaybackState α)) (log : List Log.Entry) :
    Outcome α (Engine α) Unit :=
  match fuel with
  | 0 => ⟨e, announced.reverse, log.reverse, .ok ()⟩
  | fuel + 1 =>
    if e.state.isRunning then
      let o := e.step
      let announced := o.announced.reverse ++ announced
      let log := o.log.reverse ++ log
      match o.result with
      | .ok () => runFrom fuel o.state announced log
      | .error fault => ⟨o.state, announced.reverse, log.reverse, .error fault⟩
    else ⟨e, announced.reverse, log.reverse, .ok ()⟩

def defaultMaxSteps : Int := 1000000

def stillRunningNote (maxSteps : Int) : Log.Entry :=
  Log.warning logSource ("Playback still running after " ++ toString maxSteps ++ " steps")

/-- Runs without a tick driver until the run is complete or has had `maxSteps` ticks. -/
def runToCompletion (e : Engine α) (maxSteps : Int) : Outcome α (Engine α) Unit :=
  let started := if e.state.isRunning then .quiet e true else e.start
  match started.result with
  | .error fault => { started with result := .error fault }
  | .ok false => { started with result := .ok () }
  | .ok true =>
    let o := runFrom maxSteps.toNat started.state started.announced.reverse started.log.reverse
    match o.result with
    | .ok () =>
      if o.state.state.isRunning then { o with log := o.log ++ [stillRunningNote maxSteps] } else o
    | .error _ => o

end Engine

end Toolpath
