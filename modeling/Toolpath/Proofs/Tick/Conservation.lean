import Mathlib
import Toolpath.Proofs.Tick.Firing

/-! No callback of a manual scheduler is lost and none fires twice. Each handle that was given out
is accounted for: it is queued, it is due in a batch, it has fired, or a cancel took it off the
queue, and of these there is one and only one. The callbacks that have fired, those that are due and
those that are queued make up one line, and as long as no callback runs the scheduler no task
changes the order of that line: it only grows at its end, and a cancel takes out of it. -/
namespace Toolpath.Callbacks

def Action.runs : Action → Bool
  | .runPending | .runUntilIdle _ => true
  | .schedule _ | .cancel _ => false

/-- A callback that does not run the scheduler. -/
def Quiet (actions : String → List Action) (name : String) : Prop :=
  ∀ action ∈ actions name, action.runs = false

def Task.runs : Task → Bool
  | .act action => action.runs
  | .round _ _ => true
  | .fire _ _ | .answer _ => false

def Task.entry? : Task → Option (Nat × String)
  | .fire handle name => some (handle, name)
  | .act _ | .round _ _ | .answer _ => none

def Event.entry? : Event → Option (Nat × String)
  | .fired handle name => some (handle, name)
  | .scheduled _ _ | .cancelled _ => none

def Event.issue? : Event → Option Nat
  | .scheduled handle _ => some handle
  | .fired _ _ | .cancelled _ => none

namespace Machine

/-- The handles that were given out, the first first. -/
def issued (m : Machine) : List Nat := m.events.reverse.filterMap Event.issue?

/-- The callbacks that have fired, the first first. -/
def past (m : Machine) : List (Nat × String) := m.events.reverse.filterMap Event.entry?

/-- The callbacks that are left in batches that are being fired, the next one first. -/
def left (m : Machine) : List (Nat × String) := m.tasks.filterMap Task.entry?

/-- The callbacks that have fired, are due or are queued, in the order in which they come. -/
def line (m : Machine) : List (Nat × String) := m.past ++ m.left ++ m.scheduler.queue

/-- No run is in progress: all that is left to do is to make calls. -/
def Resting (m : Machine) : Prop := ∀ task ∈ m.tasks, ∃ action, task = .act action

/-- How many entries the next task takes off the queue by cancelling a handle. -/
def withdrawn (m : Machine) (handle : Nat) : Nat :=
  if m.tasks.head? = some (.act (.cancel handle)) then m.queued handle else 0

/-- How many entries are taken off the queue by cancelling a handle, within a number of tasks. -/
def withdrawals (actions : String → List Action) (handle : Nat) : Nat → Machine → Nat
  | 0, _ => 0
  | n + 1, m => m.withdrawn handle + withdrawals actions handle n (m.step actions)

/-- One for a handle that was given out, and for zero, which never is. -/
def given (m : Machine) (handle : Nat) : Nat := if handle ≤ m.scheduler.lastHandle then 1 else 0

/-- The next task takes the queue as a batch to fire. What it leaves to do after the batch is a
closing task, and then the rest. -/
inductive Enters (m : Machine) : Task → List Task → Prop where
  | call {rest : List Task} (next : m.tasks = .act .runPending :: rest) :
      Enters m (.answer m.scheduler.queue.length) rest
  | round {maxTicks ticks : Int} {rest : List Task} (next : m.tasks = .round maxTicks ticks :: rest)
      (more : m.scheduler.queue ≠ [] ∧ ticks < maxTicks) :
      Enters m (.round maxTicks (ticks + m.scheduler.queue.length)) rest

end Machine

variable {actions : String → List Action} {m d : Machine} {handle : Nat} {name : String}
  {closing : Task} {rest : List Task}

/-- All that a task can do. -/
inductive Does (actions : String → List Action) (m : Machine) : Machine → Prop where
  | rests (done : m.tasks = []) : Does actions m m
  | schedules {name : String} {rest : List Task} (next : m.tasks = .act (.schedule name) :: rest) :
      Does actions m ⟨⟨m.scheduler.queue ++ [(m.scheduler.lastHandle + 1, name)],
        m.scheduler.lastHandle + 1⟩, rest, .scheduled (m.scheduler.lastHandle + 1) name :: m.events,
        some ↑(m.scheduler.lastHandle + 1)⟩
  | cancels {handle : Nat} {rest : List Task} (next : m.tasks = .act (.cancel handle) :: rest) :
      Does actions m ⟨m.scheduler.cancel handle, rest, .cancelled handle :: m.events, none⟩
  | takes {closing : Task} {rest : List Task} (enters : m.Enters closing rest) :
      Does actions m { m with
        scheduler := ⟨[], m.scheduler.lastHandle⟩,
        tasks := fires m.scheduler.queue ++ closing :: rest }
  | begins {maxTicks : Int} {rest : List Task}
      (next : m.tasks = .act (.runUntilIdle maxTicks) :: rest) :
      Does actions m { m with tasks := .round maxTicks 0 :: rest }
  | fires {handle : Nat} {name : String} {rest : List Task}
      (next : m.tasks = .fire handle name :: rest) :
      Does actions m { m with
        tasks := (actions name).map .act ++ rest, events := .fired handle name :: m.events }
  | ends {maxTicks ticks : Int} {rest : List Task}
      (next : m.tasks = .round maxTicks ticks :: rest) :
      Does actions m { m with tasks := rest, answer := some ticks }
  | answers {value : Int} {rest : List Task} (next : m.tasks = .answer value :: rest) :
      Does actions m { m with tasks := rest, answer := some value }

theorem Machine.Enters.step (enters : m.Enters closing rest) : m.step actions = { m with
    scheduler := ⟨[], m.scheduler.lastHandle⟩,
    tasks := fires m.scheduler.queue ++ closing :: rest } := by
  obtain ⟨⟨queue, last⟩, tasks, events, answer⟩ := m
  cases enters with
  | call next =>
    obtain rfl := next
    rfl
  | round next more =>
    obtain rfl := next
    exact if_pos more

theorem step_does (actions : String → List Action) (m : Machine) :
    Does actions m (m.step actions) := by
  obtain ⟨⟨queue, last⟩, tasks, events, answer⟩ := m
  cases tasks with
  | nil => exact .rests rfl
  | cons task tasks =>
    cases task with
    | act action =>
      cases action with
      | schedule name => exact .schedules rfl
      | cancel handle => exact .cancels rfl
      | runPending => exact .takes (.call rfl)
      | runUntilIdle maxTicks => exact .begins rfl
    | fire handle name => exact .fires rfl
    | round maxTicks ticks =>
      by_cases more : queue ≠ [] ∧ ticks < maxTicks
      · have enters : Machine.Enters ⟨⟨queue, last⟩, .round maxTicks ticks :: tasks, events,
            answer⟩ _ _ := .round rfl more
        rw [enters.step]
        exact .takes enters
      · have step : Machine.step actions ⟨⟨queue, last⟩, .round maxTicks ticks :: tasks, events,
            answer⟩ = _ := if_neg more
        rw [step]
        exact .ends rfl
    | answer value => exact .answers rfl

theorem Machine.Enters.next (enters : m.Enters closing rest) :
    ∃ task, m.tasks = task :: rest ∧ task.runs = true := by
  cases enters with
  | call next => exact ⟨_, next, rfl⟩
  | round next more => exact ⟨_, next, rfl⟩

theorem Machine.Enters.closing_entry (enters : m.Enters closing rest) : closing.entry? = none := by
  cases enters <;> rfl

theorem Task.entry_eq_none {task : Task} (runs : task.runs = true) : task.entry? = none := by
  cases task with
  | fire h name => cases runs
  | act _ | round _ _ | answer _ => rfl

variable (handle) in
theorem resting_due (resting : m.Resting) : m.due handle = 0 := by
  refine m.due_eq_zero_iff.mpr ?_
  rintro ⟨name, member⟩
  obtain ⟨action, call⟩ := resting _ member
  cases call

/-- Handles count up from one. -/
def Numbered (m : Machine) : Prop := m.issued = List.range' 1 m.scheduler.lastHandle

theorem Does.numbered (does : Does actions m d) (numbered : Numbered m) : Numbered d := by
  unfold Numbered Machine.issued at numbered ⊢
  cases does with
  | schedules next =>
    rw [List.reverse_cons, List.filterMap_append, numbered]
    calc
      _ = List.range' 1 m.scheduler.lastHandle ++ [1 + m.scheduler.lastHandle] := by
        rw [Nat.add_comm 1]; rfl
      _ = List.range' 1 (m.scheduler.lastHandle + 1) := List.range'_1_concat.symm
  | cancels next | fires next =>
    rw [List.reverse_cons, List.filterMap_append, numbered]
    exact List.append_nil _
  | rests _ | takes _ | begins _ | ends _ | answers _ => exact numbered

theorem after_numbered (numbered : Numbered m) (n : Nat) :
    Numbered ((Machine.step actions)^[n] m) := by
  induction n generalizing m with
  | zero => exact numbered
  | succ n ih => exact ih ((step_does actions m).numbered numbered)

/-- A task gives out one handle at most, and queues what it gives out. -/
theorem Does.last (does : Does actions m d) :
    d.scheduler.lastHandle = m.scheduler.lastHandle ∨
      d.scheduler.lastHandle = m.scheduler.lastHandle + 1 ∧
        d.queued d.scheduler.lastHandle = m.queued d.scheduler.lastHandle + 1 := by
  cases does with
  | schedules next =>
    refine .inr ⟨rfl, ?_⟩
    simp [Machine.queued]
  | rests _ | cancels _ | takes _ | begins _ | fires _ | ends _ | answers _ => exact .inl rfl

/-- What a cancel takes off the queue is all that is queued under the handle. -/
theorem withdrawn_eq (actions : String → List Action) (m : Machine) (handle : Nat) :
    m.withdrawn handle = 0 ∨ m.withdrawn handle = m.queued handle ∧
      (m.step actions).queued handle = 0 ∧ (m.step actions).due handle = m.due handle := by
  by_cases cancel : m.tasks.head? = some (.act (.cancel handle))
  · refine .inr ⟨if_pos cancel, ?_⟩
    obtain ⟨scheduler, tasks, events, answer⟩ := m
    obtain ⟨rest, rfl⟩ := List.head?_eq_some_iff.mp cancel
    refine ⟨?_, rfl⟩
    simp [Machine.step, ManualScheduler.cancel, Machine.queued, List.countP_eq_zero]
  · exact .inl (if_neg cancel)

/-- Each task keeps the account of a handle: what leaves one place arrives at another, and there is
one more to account for when the handle is given out. -/
theorem step_account (actions : String → List Action) (m : Machine) (handle : Nat) :
    (m.step actions).queued handle + (m.step actions).due handle + (m.step actions).firings handle +
        m.withdrawn handle + m.given handle =
      m.queued handle + m.due handle + m.firings handle + (m.step actions).given handle := by
  have last := (step_does actions m).last
  have withdrawn := withdrawn_eq actions m handle
  have moves := step_moves actions handle m
  generalize m.step actions = d at *
  unfold Machine.given
  rcases moves with ⟨queued, due, firings, _⟩ | ⟨_, _, _, _, _⟩ | ⟨cancel, _, _, _, _⟩ |
    ⟨_, _, _, _⟩ | ⟨_, _, _, _⟩
  · -- A handle that stays where it is was not given out, or it would be queued.
    have same : handle ≤ d.scheduler.lastHandle ↔ handle ≤ m.scheduler.lastHandle := by
      rcases last with same | ⟨next, new⟩
      · rw [same]
      · have other : handle ≠ d.scheduler.lastHandle := by
          rintro rfl
          omega
        omega
    simp only [same]
    omega
  · rw [if_neg (by omega), if_pos (by omega)]
    omega
  · have withdrawn : m.withdrawn handle = m.queued handle := if_pos cancel
    simp only [*]
    omega
  · simp only [*]
    omega
  · simp only [*]
    omega

/-- The account over a number of tasks. -/
theorem after_account (m : Machine) (handle n : Nat) :
    ((Machine.step actions)^[n] m).queued handle + ((Machine.step actions)^[n] m).due handle +
        ((Machine.step actions)^[n] m).firings handle + Machine.withdrawals actions handle n m +
        m.given handle =
      m.queued handle + m.due handle + m.firings handle +
        ((Machine.step actions)^[n] m).given handle := by
  induction n generalizing m with
  | zero => rfl
  | succ n ih =>
    have first := step_account actions m handle
    have later := ih (m.step actions)
    rw [Function.iterate_succ_apply, Machine.withdrawals]
    omega

/-- Whatever runs the scheduler comes after all that is due. -/
def Clear (m : Machine) : Prop :=
  m.tasks.Pairwise fun earlier later => earlier.runs = true → later.entry? = none

@[simp]
theorem entries_fires (batch : List (Nat × String)) :
    (fires batch).filterMap Task.entry? = batch := by
  rw [fires, List.filterMap_map]
  exact List.filterMap_some

/-- With what comes next taken up, nothing is due behind a task that runs the scheduler. -/
theorem Clear.behind {task : Task} (clear : Clear m) (next : m.tasks = task :: rest)
    (runs : task.runs = true) : ∀ later ∈ rest, later.entry? = none := by
  rw [Clear, next] at clear
  exact fun later member => List.rel_of_pairwise_cons clear member runs

theorem Does.clear (does : Does actions m d) (clear : Clear m)
    (quiet : ∀ entry ∈ d.past, Quiet actions entry.2) : Clear d := by
  have tail {task : Task} {rest : List Task} (next : m.tasks = task :: rest) :
      rest.Pairwise fun earlier later => earlier.runs = true → later.entry? = none := by
    rw [Clear, next] at clear
    exact clear.tail
  cases does with
  | rests _ => exact clear
  | schedules next | cancels next | ends next | answers next => exact tail next
  | @takes closing rest enters =>
    obtain ⟨task, next, runs⟩ := enters.next
    have none := clear.behind next runs
    refine List.pairwise_append.mpr ⟨?_, List.pairwise_cons.mpr ⟨?_, tail next⟩, ?_⟩
    · rw [Callbacks.fires, List.pairwise_map]
      exact List.pairwise_of_forall fun _ _ runs => absurd runs Bool.false_ne_true
    · exact fun later member _ => none later member
    · intro task member later _ runs
      obtain ⟨entry, _, rfl⟩ := List.mem_map.mp member
      cases runs
  | @begins maxTicks rest next =>
    have none := clear.behind next rfl
    exact List.pairwise_cons.mpr ⟨fun later member _ => none later member, tail next⟩
  | @fires handle name rest next =>
    have quiet : Quiet actions name := by
      refine quiet (handle, name) ?_
      simp [Machine.past, Event.entry?]
    refine List.pairwise_append.mpr ⟨?_, tail next, ?_⟩
    · refine List.pairwise_of_forall_mem_list ?_
      intro earlier member _ _ runs
      obtain ⟨call, listed, rfl⟩ := List.mem_map.mp member
      cases (quiet call listed).symm.trans runs
    · intro task member later _ runs
      obtain ⟨call, listed, rfl⟩ := List.mem_map.mp member
      cases (quiet call listed).symm.trans runs

/-- A task leaves the line as it is, or takes out of it, or adds a new handle at its end, unless it
takes a batch while another is being fired. -/
theorem Does.line (does : Does actions m d) (clear : Clear m) :
    d.line.Sublist m.line ∨ ∃ name, d.line = m.line ++ [(d.scheduler.lastHandle, name)] ∧
      d.scheduler.lastHandle = m.scheduler.lastHandle + 1 := by
  unfold Machine.line Machine.past Machine.left
  cases does with
  | rests _ => exact .inl (.refl _)
  | @schedules name rest next =>
    refine .inr ⟨name, ?_, rfl⟩
    simp [next, Task.entry?, Event.entry?, List.filterMap_cons]
  | cancels next =>
    refine .inl ?_
    simp only [next, List.reverse_cons, List.filterMap_append, List.filterMap_cons, Event.entry?,
      Task.entry?, List.filterMap_nil, List.append_nil]
    exact .append (.refl _) List.filter_sublist
  | @takes closing rest enters =>
    obtain ⟨task, next, runs⟩ := enters.next
    have none : rest.filterMap Task.entry? = [] :=
      List.filterMap_eq_nil_iff.mpr (clear.behind next runs)
    simp [next, enters.closing_entry, Task.entry_eq_none runs, none]
  | fires next => simp [next, Task.entry?, Event.entry?]
  | begins next | ends next | answers next => simp [next, List.filterMap_cons, Task.entry?]

/-- The line is in the order of the handles, and none is ahead of what was given out. -/
structure InOrder (m : Machine) : Prop where
  clear : Clear m
  ordered : m.line.Pairwise fun earlier later => earlier.1 < later.1
  given : ∀ entry ∈ m.line, entry.1 ≤ m.scheduler.lastHandle

theorem Does.inOrder (does : Does actions m d) (inOrder : InOrder m)
    (quiet : ∀ entry ∈ d.past, Quiet actions entry.2) : InOrder d := by
  have last : m.scheduler.lastHandle ≤ d.scheduler.lastHandle := by
    have last := does.last
    omega
  rcases does.line inOrder.clear with fewer | ⟨name, longer, next⟩
  · refine ⟨does.clear inOrder.clear quiet, inOrder.ordered.sublist fewer, ?_⟩
    exact fun entry member => (inOrder.given entry (fewer.subset member)).trans last
  · have before (entry) (member : entry ∈ m.line) : entry.1 < d.scheduler.lastHandle := by
      have given := inOrder.given entry member
      omega
    refine ⟨does.clear inOrder.clear quiet, ?_, ?_⟩
    · rw [longer]
      refine List.pairwise_append.mpr ⟨inOrder.ordered, List.pairwise_singleton _ _, ?_⟩
      intro entry member new single
      obtain rfl := List.mem_singleton.mp single
      exact before entry member
    · rw [longer]
      intro entry member
      rcases List.mem_append.mp member with member | single
      · exact (before entry member).le
      · obtain rfl := List.mem_singleton.mp single
        exact le_rfl

/-- What has fired is never taken back. -/
theorem Does.past (does : Does actions m d) : m.past ⊆ d.past := by
  unfold Machine.past
  cases does with
  | schedules next | cancels next | fires next =>
    rw [List.reverse_cons, List.filterMap_append]
    exact List.subset_append_left _ _
  | rests _ | takes _ | begins _ | ends _ | answers _ => exact List.Subset.refl _

theorem after_inOrder (inOrder : InOrder m) (n : Nat)
    (quiet : ∀ entry ∈ ((Machine.step actions)^[n] m).past, Quiet actions entry.2) :
    InOrder ((Machine.step actions)^[n] m) := by
  induction n with
  | zero => exact inOrder
  | succ n ih =>
    rw [Function.iterate_succ_apply'] at quiet ⊢
    have does := step_does actions ((Machine.step actions)^[n] m)
    exact does.inOrder (ih fun entry member => quiet entry (does.past member)) quiet

theorem calls_inOrder (outer : List Action) : InOrder (.calls outer) := by
  have calling : ∀ task ∈ (Machine.calls outer).tasks, task.entry? = none := by
    intro task member
    obtain ⟨action, _, rfl⟩ := List.mem_map.mp member
    rfl
  have line : (Machine.calls outer).line = [] := by
    have left : (Machine.calls outer).left = [] := List.filterMap_eq_nil_iff.mpr calling
    rw [Machine.line, left]
    rfl
  refine ⟨?_, ?_, ?_⟩
  · refine List.pairwise_of_forall_mem_list ?_
    exact fun _ _ later member _ => calling later member
  · rw [line]
    exact .nil
  · rw [line]
    exact fun _ member => nomatch member

variable (actions) in
theorem step_call {action : Action} (next : m.tasks = .act action :: rest)
    (quiet : action.runs = false) :
    (m.step actions).tasks = rest ∧ (m.step actions).past = m.past := by
  obtain ⟨scheduler, tasks, events, answer⟩ := m
  obtain rfl := next
  cases action with
  | schedule name => exact ⟨rfl, by simp [Machine.step, Machine.past, Event.entry?]⟩
  | cancel handle => exact ⟨rfl, by simp [Machine.step, Machine.past, Event.entry?]⟩
  | runPending | runUntilIdle maxTicks => cases quiet

variable (actions) in
theorem step_fire (next : m.tasks = .fire handle name :: rest) :
    (m.step actions).tasks = (actions name).map .act ++ rest ∧
      (m.step actions).past = m.past ++ [(handle, name)] := by
  obtain ⟨scheduler, tasks, events, answer⟩ := m
  obtain rfl := next
  exact ⟨rfl, by simp [Machine.step, Machine.past, Event.entry?]⟩

/-- Calls that do not run the scheduler are made one after the other, and fire nothing. -/
theorem calls_made {made : List Action} (quiet : ∀ action ∈ made, action.runs = false)
    (next : m.tasks = made.map .act ++ rest) :
    ∃ n, ((Machine.step actions)^[n] m).tasks = rest ∧
      ((Machine.step actions)^[n] m).past = m.past := by
  induction made generalizing m with
  | nil => exact ⟨0, next, rfl⟩
  | cons action made ih =>
    obtain ⟨left, same⟩ := step_call actions next (quiet action List.mem_cons_self)
    obtain ⟨n, done, past⟩ :=
      ih (fun other member => quiet other (List.mem_cons_of_mem action member)) left
    exact ⟨n + 1, done, past.trans same⟩

/-- A batch of callbacks that do not run the scheduler is fired as it is, and nothing besides. -/
theorem batch_fired {batch : List (Nat × String)} (quiet : ∀ entry ∈ batch, Quiet actions entry.2)
    (next : m.tasks = fires batch ++ rest) :
    ∃ n, ((Machine.step actions)^[n] m).tasks = rest ∧
      ((Machine.step actions)^[n] m).past = m.past ++ batch := by
  induction batch generalizing m with
  | nil => exact ⟨0, next, (List.append_nil _).symm⟩
  | cons entry batch ih =>
    obtain ⟨doing, fired⟩ := step_fire actions next
    obtain ⟨k, left, same⟩ := calls_made (quiet entry List.mem_cons_self) doing
    obtain ⟨n, done, past⟩ :=
      ih (fun other member => quiet other (List.mem_cons_of_mem entry member)) left
    refine ⟨n + k + 1, ?_, ?_⟩
    · rw [Function.iterate_succ_apply, Function.iterate_add_apply]
      exact done
    · rw [Function.iterate_succ_apply, Function.iterate_add_apply, past, same, fired,
        List.append_assoc]
      rfl

/-- Every handle that was given out is queued, or has fired once, or was taken off the queue by a
cancel, whenever no run is in progress. As long as no callback that fires runs the scheduler, they
fire in the order in which they were scheduled. A run over callbacks that do not run it fires what
was queued when it began, and comes to its end. -/
theorem callback_in_one_place (actions : String → List Action) (outer : List Action) (n : Nat) :
    let m := (Machine.step actions)^[n] (.calls outer)
    m.issued.Pairwise (· < ·) ∧
      (m.Resting → ∀ handle ∈ m.issued, m.queued handle + m.firings handle +
        Machine.withdrawals actions handle n (.calls outer) = 1) ∧
      ((∀ entry ∈ m.past, Quiet actions entry.2) →
        m.past.Pairwise fun earlier later => earlier.1 < later.1) ∧
      ∀ closing rest, m.Enters closing rest →
        (∀ entry ∈ m.scheduler.queue, Quiet actions entry.2) →
        ∃ k, ((Machine.step actions)^[k] m).tasks = closing :: rest ∧
          ((Machine.step actions)^[k] m).past = m.past ++ m.scheduler.queue ∧
          ∀ entry ∈ m.scheduler.queue, entry.1 ≤ m.scheduler.lastHandle := by
  intro m
  have numbered : m.issued = List.range' 1 m.scheduler.lastHandle :=
    after_numbered (m := .calls outer) rfl n
  refine ⟨?_, ?_, ?_, ?_⟩
  · rw [numbered]
    exact List.pairwise_lt_range'
  · intro resting handle issued
    rw [numbered, List.mem_range'_1] at issued
    have account : m.queued handle + m.due handle + m.firings handle +
        Machine.withdrawals actions handle n (.calls outer) + (Machine.calls outer).given handle =
          _ + m.given handle := after_account (.calls outer) handle n
    have before := calls_placed outer handle
    have due := resting_due handle resting
    have none : ¬ handle ≤ (Machine.calls outer).scheduler.lastHandle := Nat.not_le.mpr issued.1
    have one : m.given handle = 1 := if_pos (by omega)
    rw [Machine.given, if_neg none] at account
    rw [if_neg none] at before
    omega
  · intro quiet
    have inOrder : InOrder m := after_inOrder (calls_inOrder outer) n quiet
    have first : m.past.Sublist m.line :=
      (List.sublist_append_left _ _).trans (List.sublist_append_left _ _)
    exact inOrder.ordered.sublist first
  · intro closing rest enters quiet
    have taken := @Machine.Enters.step actions _ _ _ enters
    obtain ⟨k, left, past⟩ := batch_fired quiet (congrArg Machine.tasks taken)
    refine ⟨k + 1, left, past.trans ?_, ?_⟩
    · rw [taken]
      rfl
    · intro entry member
      have placed := after_placed actions (calls_placed outer) n entry.1
      have queued : 0 < m.queued entry.1 :=
        List.countP_pos_iff.mpr ⟨entry, member, beq_self_eq_true entry.1⟩
      change m.queued entry.1 + m.due entry.1 + m.firings entry.1 ≤ _ at placed
      by_contra above
      rw [if_neg above] at placed
      omega

/-- The first callback schedules a third, which waits for the next round, and the second is
cancelled in time. -/
theorem callback_in_one_place_rounds :
    let actions : String → List Action := fun name =>
      if name = "first" then [.schedule "third"] else []
    let outer : List Action := [.schedule "first", .schedule "second", .cancel 2, .runUntilIdle 9]
    let first := (Machine.step actions)^[4] (.calls outer)
    let last := (Machine.step actions)^[10] (.calls outer)
    (∃ k, ((Machine.step actions)^[k] first).past = [(1, "first")]) ∧
      last.past = [(1, "first"), (3, "third")] ∧
      last.past.Pairwise (fun earlier later => earlier.1 < later.1) ∧
      last.issued = [1, 2, 3] ∧
      ∀ handle ∈ last.issued, last.queued handle + last.firings handle +
        Machine.withdrawals actions handle 10 (.calls outer) = 1 := by
  intro actions outer first last
  have quiet : ∀ name, Quiet actions name := by
    intro name action member
    dsimp only [actions] at member
    split at member
    · obtain rfl := List.mem_singleton.mp member
      rfl
    · cases member
  have resting : last.Resting := by
    have done : last.tasks = [] := by decide
    intro task member
    cases done ▸ member
  have more : first.scheduler.queue ≠ [] ∧ (0 : Int) < 9 := by decide
  have enters : first.Enters (.round 9 1) [] := .round rfl more
  obtain ⟨k, _, past, _⟩ :=
    (callback_in_one_place actions outer 4).2.2.2 _ _ enters fun entry _ => quiet entry.2
  have accounted := callback_in_one_place actions outer 10
  exact ⟨⟨k, past⟩, by decide, accounted.2.2.1 fun entry _ => quiet entry.2, by decide,
    accounted.2.1 resting⟩

end Toolpath.Callbacks
