import Toolpath.Fault
import Toolpath.Position

/-! Schedulers of ticks. A tick is known by a token, a natural number; scheduling it gives a handle, under which
it can be cancelled until it fires. -/
namespace Toolpath

class TickScheduler (σ : Type) where
  schedule : σ → Nat → σ × Nat
  cancel : σ → Nat → σ

/-- A queue that fires when told to. Handles count up from one and are never given twice. -/
structure ManualScheduler (τ : Type) where
  queue : List (Nat × τ)
  lastHandle : Nat

namespace ManualScheduler
variable {τ : Type}

def empty : ManualScheduler τ := ⟨[], 0⟩

def schedule (s : ManualScheduler τ) (token : τ) : ManualScheduler τ × Nat :=
  (⟨s.queue ++ [(s.lastHandle + 1, token)], s.lastHandle + 1⟩, s.lastHandle + 1)

/-- Drops what is queued under a handle; any other handle is ignored. -/
def cancel (s : ManualScheduler τ) (handle : Nat) : ManualScheduler τ :=
  { s with queue := s.queue.filter (·.1 != handle) }

def pending (s : ManualScheduler τ) : Nat := s.queue.length

/-- Empties the queue and gives what it held: these fire, in this order, whatever is cancelled meanwhile. -/
def takeBatch (s : ManualScheduler τ) : ManualScheduler τ × List (Nat × τ) := ({ s with queue := [] }, s.queue)

end ManualScheduler

instance : TickScheduler (ManualScheduler Nat) := ⟨ManualScheduler.schedule, ManualScheduler.cancel⟩

/-- Keeps every tick for ever and only notes cancellations, so that a cancelled tick can still fire. The handle
of a tick is its place, counted from one. -/
structure KeepingScheduler where
  tokens : List Nat
  cancelled : List Nat

namespace KeepingScheduler

def empty : KeepingScheduler := ⟨[], []⟩

def schedule (s : KeepingScheduler) (token : Nat) : KeepingScheduler × Nat :=
  ({ s with tokens := s.tokens ++ [token] }, s.tokens.length + 1)

def cancel (s : KeepingScheduler) (handle : Nat) : KeepingScheduler :=
  { s with cancelled := s.cancelled ++ [handle] }

def token? (s : KeepingScheduler) (position : Int) : Option Nat := Position.item? s.tokens position

end KeepingScheduler

instance : TickScheduler KeepingScheduler := ⟨KeepingScheduler.schedule, KeepingScheduler.cancel⟩

structure Timer (τ : Type) where
  token : τ
  stopped : Bool

/-- Starts one single-shot timer for each tick, all with one interval. The handle of a tick is the number of its
timer; a timer is held until it fires or is cancelled. -/
structure TimerScheduler (τ : Type) where
  timers : List (Timer τ)
  held : List Nat

namespace TimerScheduler
variable {τ : Type}

def empty : TimerScheduler τ := ⟨[], []⟩

def schedule (s : TimerScheduler τ) (token : τ) : TimerScheduler τ × Nat :=
  (⟨s.timers ++ [⟨token, false⟩], s.held ++ [s.timers.length]⟩, s.timers.length)

def handle? (s : TimerScheduler τ) (position : Int) : Except Fault Nat :=
  match Position.place? s.timers.length position with
  | some handle => .ok handle
  | none => .error .noSuchTick

def isHeld (s : TimerScheduler τ) (handle : Nat) : Bool := s.held.contains handle

def release (s : TimerScheduler τ) (handle : Nat) : TimerScheduler τ := { s with held := s.held.erase handle }

/-- Stops a timer that is held; any other is left alone. -/
def cancel (s : TimerScheduler τ) (handle : Nat) : TimerScheduler τ :=
  if s.isHeld handle then
    { s.release handle with timers := s.timers.modify handle ({ · with stopped := true }) }
  else s

def pending (s : TimerScheduler τ) : Nat := s.held.length

/-- The token of a timer that is held and whose time has come; the timer is released. -/
def expire (s : TimerScheduler τ) (handle : Nat) : TimerScheduler τ × Option τ :=
  if s.isHeld handle then (s.release handle, s.timers[handle]?.map (·.token)) else (s, none)

end TimerScheduler

instance : TickScheduler (TimerScheduler Nat) := ⟨TimerScheduler.schedule, TimerScheduler.cancel⟩

end Toolpath
