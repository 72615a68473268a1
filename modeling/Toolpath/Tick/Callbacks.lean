import Toolpath.Tick.Scheduler

/-! A manual scheduler whose callbacks act on it while they are fired. Each callback has a name and does the
actions of that name. A machine holds the tasks still to do, the next one first: an action, a callback to fire,
the next round of a run until idle, or an answer to give. One step does one task, which may put others in front;
so calls may nest to any depth, and a run that ends has done finitely many steps. -/
namespace Toolpath.Callbacks

inductive Action where
  | schedule (name : String)
  | cancel (handle : Nat)
  | runPending
  | runUntilIdle (maxTicks : Int)
  deriving DecidableEq

inductive Task where
  | act (action : Action)
  | fire (handle : Nat) (name : String)
  | round (maxTicks ticks : Int)
  | answer (value : Int)
  deriving DecidableEq

inductive Event where
  | scheduled (handle : Nat) (name : String)
  | cancelled (handle : Nat)
  | fired (handle : Nat) (name : String)
  deriving DecidableEq

structure Machine where
  scheduler : ManualScheduler String
  tasks : List Task
  /-- The latest first. -/
  events : List Event
  /-- What the call that ended last gave back. -/
  answer : Option Int

def Machine.idle (scheduler : ManualScheduler String) : Machine := ⟨scheduler, [], [], none⟩

def Machine.calling (scheduler : ManualScheduler String) (action : Action) : Machine :=
  ⟨scheduler, [.act action], [], none⟩

def fires (batch : List (Nat × String)) : List Task := batch.map fun (handle, name) => .fire handle name

variable (actions : String → List Action)

/-- Does the first task. -/
def Machine.step (m : Machine) : Machine :=
  match m.tasks with
  | [] => m
  | task :: tasks =>
    match task with
    | .act (.schedule name) =>
      let (scheduler, handle) := m.scheduler.schedule name
      ⟨scheduler, tasks, .scheduled handle name :: m.events, some handle⟩
    | .act (.cancel handle) => ⟨m.scheduler.cancel handle, tasks, .cancelled handle :: m.events, none⟩
    | .act .runPending =>
      let (scheduler, batch) := m.scheduler.takeBatch
      { m with scheduler, tasks := fires batch ++ .answer batch.length :: tasks }
    | .act (.runUntilIdle maxTicks) => { m with tasks := .round maxTicks 0 :: tasks }
    | .fire handle name =>
      { m with tasks := (actions name).map .act ++ tasks, events := .fired handle name :: m.events }
    | .round maxTicks ticks =>
      if m.scheduler.queue ≠ [] ∧ ticks < maxTicks then
        let (scheduler, batch) := m.scheduler.takeBatch
        { m with scheduler, tasks := fires batch ++ .round maxTicks (ticks + batch.length) :: tasks }
      else { m with tasks, answer := some ticks }
    | .answer value => { m with tasks, answer := some value }

/-- Works until nothing is left to do; a run that does not end within the fuel gives nothing. -/
def Machine.run : Nat → Machine → Option Machine
  | 0, m => if m.tasks.isEmpty then some m else none
  | fuel + 1, m => if m.tasks.isEmpty then some m else Machine.run fuel (m.step actions)

def defaultMaxTicks : Int := 1000000

/-- How many tasks a call may take. -/
def callFuel : Nat := 4000000

def call? (scheduler : ManualScheduler String) (action : Action) : Option Machine :=
  (Machine.calling scheduler action).run actions callFuel

def Machine.fired (m : Machine) : List String :=
  m.events.reverse.filterMap fun
    | .fired _ name => some name
    | .scheduled _ _ | .cancelled _ => none

end Toolpath.Callbacks
