import Mathlib
import Toolpath.Tick.Callbacks

/-! Where the callbacks of a manual scheduler are. A handle that was given out is queued, due in a
batch that is being fired, or fired: in one of these places at most, and there once. A task moves it
on or leaves it alone, and only a cancel takes it out, off the queue. So a cancel stops a callback
that is queued, while one that is due is beyond its reach and still fires. -/
namespace Toolpath.Callbacks
variable {handle : Nat} {m d : Machine}

def Task.fires (handle : Nat) : Task → Bool
  | .fire h _ => h == handle
  | .act _ | .round _ _ | .answer _ => false

def Event.fires (handle : Nat) : Event → Bool
  | .fired h _ => h == handle
  | .scheduled _ _ | .cancelled _ => false

namespace Machine

/-- Calls made from outside, one after the other, on a scheduler that is new. -/
def calls (actions : List Action) : Machine := ⟨.empty, actions.map .act, [], none⟩

def queued (m : Machine) (handle : Nat) : Nat := m.scheduler.queue.countP (·.1 == handle)

/-- How often a handle is left in the batches that are being fired. -/
def due (m : Machine) (handle : Nat) : Nat := m.tasks.countP (Task.fires handle)

def firings (m : Machine) (handle : Nat) : Nat := m.events.countP (Event.fires handle)

end Machine

/-- A handle is due if a callback under it is left in a batch that is being fired. -/
def Machine.IsDue (m : Machine) (handle : Nat) : Prop := ∃ name, Task.fire handle name ∈ m.tasks

theorem Machine.due_eq_zero_iff (m : Machine) : m.due handle = 0 ↔ ¬ m.IsDue handle := by
  rw [Machine.due, List.countP_eq_zero, Machine.IsDue, not_exists]
  constructor
  · intro none name member
    exact none _ member (beq_self_eq_true handle)
  · intro none task member fires
    cases task with
    | fire h name =>
      obtain rfl := beq_iff_eq.mp fires
      exact none name member
    | act _ | round _ _ | answer _ => cases fires

theorem countP_batch (batch : List (Nat × String)) (tasks : List Task) :
    (fires batch ++ tasks).countP (Task.fires handle) =
      tasks.countP (Task.fires handle) + batch.countP (·.1 == handle) := by
  rw [List.countP_append, Nat.add_comm, fires, List.countP_map]
  rfl

/-- What one task does to a handle. -/
inductive Moves (handle : Nat) (m d : Machine) : Prop where
  | stays (queued : d.queued handle = m.queued handle) (due : d.due handle = m.due handle)
      (firings : d.firings handle = m.firings handle)
      (last : m.scheduler.lastHandle ≤ d.scheduler.lastHandle)
  | enters (new : m.scheduler.lastHandle + 1 = handle) (last : d.scheduler.lastHandle = handle)
      (queued : d.queued handle = m.queued handle + 1) (due : d.due handle = m.due handle)
      (firings : d.firings handle = m.firings handle)
  | leaves (cancel : m.tasks.head? = some (.act (.cancel handle))) (queued : d.queued handle = 0)
      (due : d.due handle = m.due handle) (firings : d.firings handle = m.firings handle)
      (last : d.scheduler.lastHandle = m.scheduler.lastHandle)
  | comes (queued : d.queued handle = 0) (due : d.due handle = m.due handle + m.queued handle)
      (firings : d.firings handle = m.firings handle)
      (last : d.scheduler.lastHandle = m.scheduler.lastHandle)
  | fires (queued : d.queued handle = m.queued handle) (due : d.due handle + 1 = m.due handle)
      (firings : d.firings handle = m.firings handle + 1)
      (last : d.scheduler.lastHandle = m.scheduler.lastHandle)

variable (actions : String → List Action)

theorem step_moves (handle : Nat) (m : Machine) : Moves handle m (m.step actions) := by
  obtain ⟨⟨queue, last⟩, tasks, events, answer⟩ := m
  cases tasks with
  | nil => exact .stays rfl rfl rfl le_rfl
  | cons task tasks =>
    cases task with
    | act action =>
      cases action with
      | schedule name =>
        by_cases new : last + 1 = handle
        · refine .enters new new ?_ rfl ?_
          · simp [Machine.step, ManualScheduler.schedule, Machine.queued, new]
          · rfl
        · refine .stays ?_ rfl rfl (Nat.le_succ last)
          simp [Machine.step, ManualScheduler.schedule, Machine.queued, new]
      | cancel other =>
        by_cases same : other = handle
        · subst same
          -- A cancel looks at the queue only, so what is due stays due.
          refine .leaves rfl ?_ rfl rfl rfl
          simp [Machine.step, ManualScheduler.cancel, Machine.queued, List.countP_eq_zero]
        · refine .stays ?_ rfl rfl le_rfl
          simp only [Machine.step, ManualScheduler.cancel, Machine.queued, List.countP_filter]
          apply List.countP_congr
          intro entry _
          simp only [Bool.and_eq_true, beq_iff_eq, bne_iff_ne]
          grind
      | runPending =>
        -- A batch is the whole queue: all that is queued becomes due at once.
        exact .comes rfl (countP_batch queue (.answer queue.length :: tasks)) rfl rfl
      | runUntilIdle maxTicks => exact .stays rfl rfl rfl le_rfl
    | fire other name =>
      by_cases same : other = handle
      · refine .fires rfl ?_ ?_ rfl
        · simp [Machine.step, Machine.due, Task.fires, same]
        · simp [Machine.step, Machine.firings, Event.fires, same]
      · refine .stays rfl ?_ ?_ le_rfl
        · simp [Machine.step, Machine.due, Task.fires, same]
        · simp [Machine.step, Machine.firings, Event.fires, same]
    | round maxTicks ticks =>
      by_cases more : queue ≠ [] ∧ ticks < maxTicks
      · have step : Machine.step actions ⟨⟨queue, last⟩, .round maxTicks ticks :: tasks, events,
            answer⟩ = _ := if_pos more
        rw [step]
        exact .comes rfl (countP_batch queue (.round maxTicks (ticks + queue.length) :: tasks)) rfl
          rfl
      · have step : Machine.step actions ⟨⟨queue, last⟩, .round maxTicks ticks :: tasks, events,
            answer⟩ = _ := if_neg more
        rw [step]
        exact .stays rfl rfl rfl le_rfl
    | answer value => exact .stays rfl rfl rfl le_rfl

/-- A handle is in one place at most, and in none before it is given out. -/
def Placed (m : Machine) : Prop :=
  ∀ handle, m.queued handle + m.due handle + m.firings handle ≤
    if handle ≤ m.scheduler.lastHandle then 1 else 0

theorem calls_placed (outer : List Action) : Placed (.calls outer) := by
  intro handle
  have queued : (Machine.calls outer).queued handle = 0 := rfl
  have due : (Machine.calls outer).due handle = 0 := by
    simp [Machine.due, Machine.calls, Task.fires]
  have firings : (Machine.calls outer).firings handle = 0 := rfl
  omega

theorem step_placed (placed : Placed m) : Placed (m.step actions) := by
  intro handle
  have before := placed handle
  rcases step_moves actions handle m with
    ⟨_, _, _, _⟩ | ⟨_, _, _, _, _⟩ | ⟨_, _, _, _, _⟩ | ⟨_, _, _, _⟩ | ⟨_, _, _, _⟩
  all_goals split at before <;> split <;> omega

theorem after_placed (placed : Placed m) (n : Nat) : Placed ((Machine.step actions)^[n] m) := by
  induction n generalizing m with
  | zero => exact placed
  | succ n ih => exact ih (step_placed actions placed)

/-- A handle that was given out and is not queued, which it will never be again. -/
def Unqueued (handle : Nat) (m : Machine) : Prop :=
  m.queued handle = 0 ∧ handle ≤ m.scheduler.lastHandle

theorem step_unqueued (unqueued : Unqueued handle m) : Unqueued handle (m.step actions) ∧
    (m.step actions).due handle ≤ m.due handle ∧
    (m.step actions).due handle + (m.step actions).firings handle =
      m.due handle + m.firings handle := by
  obtain ⟨queued, issued⟩ := unqueued
  unfold Unqueued
  rcases step_moves actions handle m with
    ⟨_, _, _, _⟩ | ⟨_, _, _, _, _⟩ | ⟨_, _, _, _, _⟩ | ⟨_, _, _, _⟩ | ⟨_, _, _, _⟩
  all_goals omega

/-- Once a handle is not queued any more, what is due of it is all that will be fired. -/
theorem after_unqueued (unqueued : Unqueued handle m) (n : Nat) :
    ((Machine.step actions)^[n] m).due handle ≤ m.due handle ∧
      ((Machine.step actions)^[n] m).due handle + ((Machine.step actions)^[n] m).firings handle =
        m.due handle + m.firings handle := by
  induction n generalizing m with
  | zero => exact ⟨le_rfl, rfl⟩
  | succ n ih =>
    obtain ⟨still, fewer, same⟩ := step_unqueued actions unqueued
    obtain ⟨fewest, total⟩ := ih still
    exact ⟨fewest.trans fewer, total.trans same⟩

theorem cancel_unqueued (next : m.tasks.head? = some (.act (.cancel handle)))
    (issued : handle ≤ m.scheduler.lastHandle) :
    Unqueued handle (m.step actions) ∧ (m.step actions).due handle = m.due handle ∧
      (m.step actions).firings handle = m.firings handle := by
  obtain ⟨scheduler, tasks, events, answer⟩ := m
  obtain ⟨rest, rfl⟩ := List.head?_eq_some_iff.mp next
  refine ⟨⟨?_, issued⟩, rfl, rfl⟩
  simp [Machine.step, ManualScheduler.cancel, Machine.queued, List.countP_eq_zero]

/-- A run that ends is some tasks done one after the other until none is left. -/
theorem run_eq_some {fuel : Nat} (ended : m.run actions fuel = some d) :
    ∃ n, d = (Machine.step actions)^[n] m ∧ d.tasks = [] := by
  induction fuel generalizing m with
  | zero =>
    rw [Machine.run] at ended
    split at ended
    · rename_i done
      cases ended
      exact ⟨0, rfl, List.isEmpty_iff.mp done⟩
    · cases ended
  | succ fuel ih =>
    rw [Machine.run] at ended
    split at ended
    · rename_i done
      cases ended
      exact ⟨0, rfl, List.isEmpty_iff.mp done⟩
    · obtain ⟨n, same, done⟩ := ih ended
      exact ⟨n + 1, same, done⟩

/-- A callback that is cancelled never fires again unless it is due in a batch that is being fired
while it is cancelled. One that is due has not fired before, and if the run ends it has fired
once. -/
theorem fires_after_cancel (outer : List Action) (n handle : Nat)
    (next : ((Machine.step actions)^[n] (.calls outer)).tasks.head? = some (.act (.cancel handle)))
    (issued : handle ≤ ((Machine.step actions)^[n] (.calls outer)).scheduler.lastHandle) :
    let m := (Machine.step actions)^[n] (.calls outer)
    (¬ m.IsDue handle → ∀ k, ((Machine.step actions)^[k] m).firings handle = m.firings handle) ∧
      (m.IsDue handle → m.firings handle = 0 ∧
        ∀ fuel d, m.run actions fuel = some d → d.firings handle = 1) := by
  intro m
  have placed : m.queued handle + m.due handle + m.firings handle ≤ 1 := by
    have bound := after_placed actions (calls_placed outer) n handle
    rwa [if_pos issued] at bound
  obtain ⟨unqueued, due, firings⟩ := cancel_unqueued actions next issued
  -- From the cancel on, what is due only falls, and each time it falls the handle fires.
  have total (k : Nat) :
      ((Machine.step actions)^[k] m).due handle ≤ m.due handle ∧
        ((Machine.step actions)^[k] m).due handle + ((Machine.step actions)^[k] m).firings handle =
          m.due handle + m.firings handle := by
    cases k with
    | zero => exact ⟨le_rfl, rfl⟩
    | succ k =>
      rw [Function.iterate_succ_apply, ← due, ← firings]
      exact after_unqueued actions unqueued k
  constructor
  · intro notDue k
    have none := m.due_eq_zero_iff.mpr notDue
    have sum := total k
    omega
  · intro isDue
    have some := m.due_eq_zero_iff.not_left.mpr isDue
    refine ⟨by omega, ?_⟩
    intro fuel d ended
    obtain ⟨k, rfl, done⟩ := run_eq_some actions ended
    have none : ((Machine.step actions)^[k] m).due handle = 0 := by
      rw [Machine.due, done, List.countP_nil]
    have sum := total k
    omega

theorem fires_after_cancel_queued :
    let outer : List Action := [.schedule "only", .cancel 1, .runPending]
    let m := (Machine.step fun _ => [])^[1] (.calls outer)
    m.tasks.head? = some (.act (.cancel 1)) ∧ 1 ≤ m.scheduler.lastHandle ∧
      ∀ k, ((Machine.step fun _ => [])^[k] m).firings 1 = 0 := by
  intro outer m
  have next : m.tasks.head? = some (.act (.cancel 1)) := rfl
  have issued : 1 ≤ m.scheduler.lastHandle := le_rfl
  exact ⟨next, issued, (fires_after_cancel (fun _ => []) outer 1 1 next issued).1
    (m.due_eq_zero_iff.mp rfl)⟩

/-- Two callbacks are fired in one batch and the first cancels the other. It fires all the same. -/
theorem due_callback_fires :
    let actions : String → List Action := fun name => if name = "first" then [.cancel 2] else []
    let outer : List Action := [.schedule "first", .schedule "second", .runPending]
    let m := (Machine.step actions)^[4] (.calls outer)
    m.tasks.head? = some (.act (.cancel 2)) ∧ 2 ≤ m.scheduler.lastHandle ∧ m.firings 2 = 0 ∧
      ((Machine.step actions)^[2] m).firings 2 = 1 := by
  decide

end Toolpath.Callbacks
