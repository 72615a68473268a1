import Toolpath.Geometry.Planar
import Toolpath.Playback.History

/-! The state of a run and what one tick does to it. Within one step length of its target the tool snaps onto
it, and the waypoint joins the history; otherwise it moves one step length along the straight line. Points
between waypoints never join the history. -/
namespace Toolpath

inductive PlaybackStatus where
  | idle
  | running
  | paused
  | complete
  deriving DecidableEq

namespace PlaybackStatus

def label : PlaybackStatus → String
  | .idle => "Ready"
  | .running => "Running"
  | .paused => "Paused"
  | .complete => "Complete"

def name : PlaybackStatus → String
  | .idle => "IDLE"
  | .running => "RUNNING"
  | .paused => "PAUSED"
  | .complete => "COMPLETE"

end PlaybackStatus

/-- `index` counts the moves completed, so it is also the position of the next target. The history is a value,
or what stands for one where histories are kept elsewhere. -/
structure PlaybackState (α : Type) (η : Type := History (Waypoint α)) where
  index : Int
  x : α
  y : α
  feed : α
  status : PlaybackStatus
  history : η
  line : Int

/-- How far a tick goes: a percentage of speed over a divisor, and a factor for rapid moves. -/
structure Pace (α : Type) where
  speed : α
  divisor : α
  rapidFactor : α

namespace PlaybackState
variable {α η : Type} [Scalar α]

def initial : PlaybackState α := ⟨0, Scalar.zero, Scalar.zero, Scalar.zero, .idle, .start, 0⟩

def isRunning (s : PlaybackState α η) : Bool := s.status = .running

def isPaused (s : PlaybackState α) : Bool := s.status = .paused

omit [Scalar α] in
theorem isRunning_iff {s : PlaybackState α η} : s.isRunning = true ↔ s.status = .running :=
  decide_eq_true_iff

omit [Scalar α] in
theorem isPaused_iff {s : PlaybackState α} : s.isPaused = true ↔ s.status = .paused :=
  decide_eq_true_iff

def isComplete (s : PlaybackState α) : Bool := s.status = .complete

/-- The fraction of moves completed, zero for an empty program. -/
def progress (s : PlaybackState α) (total : Nat) : Except Fault α :=
  if total = 0 then .ok Scalar.zero else Scalar.ratio s.index total

end PlaybackState

namespace Pace
variable {α : Type} [Scalar α]

def stepLength (pace : Pace α) (kind : MoveKind) : Except Fault α := do
  let length ← Scalar.quotient pace.speed pace.divisor
  return match kind with
    | .rapid => length * pace.rapidFactor
    | .linear => length

end Pace

/-- What a tick comes to: nothing, the end of a run that has no move left, the arrival at its target, or a
point on the way there. -/
inductive Advance (α : Type) where
  | rest
  | finish
  | arrive (target : Move α)
  | travel (x y : α)

namespace PlaybackState
variable {α σ η ζ : Type}

/-- The same state with something else that stands for its history. -/
def withHistory (s : PlaybackState α η) (history : ζ) : PlaybackState α ζ :=
  ⟨s.index, s.x, s.y, s.feed, s.status, history, s.line⟩

/-- The state at the target, with the history that has it as its last waypoint. -/
def arrive (s : PlaybackState α η) (target : Move α) (total : Nat) (history : η) : PlaybackState α η :=
  { index := s.index + 1
    x := target.x
    y := target.y
    feed := target.feed
    status := if total ≤ s.index + 1 then .complete else .running
    history
    line := target.line }

def reach (s : PlaybackState α) (target : Move α) (total : Nat) : PlaybackState α :=
  s.arrive target total (s.history.append (.ofMove target))

variable [Scalar α] [Metric α]

def remaining (s : PlaybackState α η) (target : Move α) : α := Planar.distance s.x s.y target.x target.y

/-- Decides a tick. The history has no part in it. -/
def advance (s : PlaybackState α η) (moves : List (Move α)) (pace : Pace α) : Except Fault (Advance α) :=
  if s.isRunning then
    if moves.length ≤ s.index then return .finish
    else match Position.item? moves s.index with
    | none => throw .noSuchMove
    | some target => do
      let length ← pace.stepLength target.kind
      let remaining := s.remaining target
      if Scalar.lt remaining length then return .arrive target
      else
        let ratio ← Scalar.quotient length remaining
        let (x, y) := Planar.lerp s.x s.y target.x target.y ratio
        return .travel x y
  else return .rest

/-- Carries a tick out. Only an arrival makes a history. -/
def after (keeping : Keeping σ η (Waypoint α)) (store : σ) (s : PlaybackState α η) (total : Nat) :
    Advance α → σ × PlaybackState α η
  | .rest => (store, s)
  | .finish => (store, { s with status := .complete })
  | .arrive target =>
    let (store, history) := keeping.append store s.history (.ofMove target)
    (store, s.arrive target total history)
  | .travel x y => (store, { s with x, y })

/-- One tick. A state that is not running stays as it is. -/
def stepIn (keeping : Keeping σ η (Waypoint α)) (store : σ) (s : PlaybackState α η) (moves : List (Move α))
    (pace : Pace α) : Except Fault (σ × PlaybackState α η) :=
  (s.advance moves pace).map (s.after keeping store moves.length)

/-- One tick of a state that has its history as a value. -/
def step (s : PlaybackState α) (moves : List (Move α)) (pace : Pace α) : Except Fault (PlaybackState α) :=
  (s.stepIn .values () moves pace).map (·.2)

end PlaybackState

end Toolpath
