import Mathlib
import Toolpath.Proofs.Tick.Conservation

/-! The budget of a run until idle. It is looked at between batches only, and a batch is fired as a
whole. So a run over callbacks that do not run the scheduler ends, answers how many it fired, and
leaves callbacks queued only once its budget is spent; but its last batch may hold more than was
left of the budget. -/
namespace Toolpath.Callbacks
variable {actions : String → List Action} {m : Machine} {closing : Task} {rest : List Task}

/-! Runs that end. -/

theorem step_done (actions : String → List Action) (done : m.tasks = []) : m.step actions = m := by
  obtain ⟨scheduler, tasks, events, answer⟩ := m
  obtain rfl := done
  rfl

/-- Whatever comes to its end within some tasks does so with any fuel that is enough for these. -/
theorem run_of_done {n : Nat} (done : ((Machine.step actions)^[n] m).tasks = []) (more : Nat) :
    m.run actions (n + more) = some ((Machine.step actions)^[n] m) := by
  induction n generalizing m with
  | zero =>
    have ended : m.tasks.isEmpty = true := List.isEmpty_iff.mpr done
    cases more with
    | zero => exact if_pos ended
    | succ more => exact if_pos ended
  | succ n ih =>
    rw [Nat.add_right_comm, Machine.run]
    split
    · rename_i ended
      have still := step_done actions (List.isEmpty_iff.mp ended)
      rw [Function.iterate_fixed still]
    · exact ih done

/-! Rounds. -/

/-- A batch of callbacks that do not run the scheduler is fired to its end. -/
theorem Machine.Enters.fired (enters : m.Enters closing rest)
    (quiet : ∀ entry ∈ m.scheduler.queue, Quiet actions entry.2) :
    ∃ n, ((Machine.step actions)^[n] m).tasks = closing :: rest ∧
      ((Machine.step actions)^[n] m).past = m.past ++ m.scheduler.queue := by
  have taken : m.step actions = _ := enters.step
  obtain ⟨n, left, past⟩ := batch_fired quiet (congrArg Machine.tasks taken)
  refine ⟨n + 1, left, past.trans ?_⟩
  rw [taken]
  rfl

/-- Some batch is the last one of a run that fired all of `past`, and it was taken while some of the
budget was left. -/
def LastBatch (actions : String → List Action) (m : Machine) (maxTicks : Int)
    (past : List (Nat × String)) : Prop :=
  ∃ k, let b := (Machine.step actions)^[k] m
    (∃ closing rest, b.Enters closing rest) ∧ b.past.length < maxTicks ∧
      past = b.past ++ b.scheduler.queue

theorem LastBatch.later {past : List (Nat × String)} {maxTicks : Int} {n : Nat}
    (last : LastBatch actions ((Machine.step actions)^[n] m) maxTicks past) :
    LastBatch actions m maxTicks past := by
  obtain ⟨k, enters, within, whole⟩ := last
  rw [← Function.iterate_add_apply] at enters within whole
  exact ⟨k + n, enters, within, whole⟩

/-- A run with this budget, begun at `m`, has come to its end at `d`. -/
structure Ended (actions : String → List Action) (maxTicks : Int) (m d : Machine) : Prop where
  done : d.tasks = []
  answer : d.answer = some ↑d.past.length
  idle : d.past.length < maxTicks → d.scheduler.queue = []
  last : d.past = m.past ∨ LastBatch actions m maxTicks d.past

theorem round_spent {maxTicks ticks : Int} (next : m.tasks = .round maxTicks ticks :: rest)
    (spent : ¬ (m.scheduler.queue ≠ [] ∧ ticks < maxTicks)) :
    m.step actions = { m with tasks := rest, answer := some ticks } := by
  obtain ⟨scheduler, tasks, events, answer⟩ := m
  obtain rfl := next
  exact if_neg spent

theorem Ended.of_spent {maxTicks : Int} (next : m.tasks = [.round maxTicks m.past.length])
    (spent : ¬ (m.scheduler.queue ≠ [] ∧ (m.past.length : Int) < maxTicks)) :
    Ended actions maxTicks m (m.step actions) := by
  rw [round_spent next spent]
  refine ⟨rfl, rfl, fun within => ?_, .inl rfl⟩
  by_contra filled
  exact spent ⟨filled, within⟩

/-- Rounds come to an end, since each of them takes at least one callback off the budget. -/
theorem rounds_end (quiet : ∀ name, Quiet actions name) {maxTicks : Int} (left : Nat)
    (next : m.tasks = [.round maxTicks m.past.length]) (budget : maxTicks - m.past.length ≤ left) :
    ∃ n, Ended actions maxTicks m ((Machine.step actions)^[n] m) := by
  induction left generalizing m with
  | zero => exact ⟨1, .of_spent next (by omega)⟩
  | succ left ih =>
    by_cases more : m.scheduler.queue ≠ [] ∧ (m.past.length : Int) < maxTicks
    · obtain ⟨n, closing, past⟩ :=
        (Machine.Enters.round next more).fired fun entry _ => quiet entry.2
      have filled : 0 < m.scheduler.queue.length := List.length_pos_iff.mpr more.1
      have fired : ((Machine.step actions)^[n] m).past.length =
          m.past.length + m.scheduler.queue.length := by
        rw [past, List.length_append]
      obtain ⟨k, ended⟩ := ih (by rw [closing, fired, Nat.cast_add]) (by omega)
      rw [← Function.iterate_add_apply] at ended
      refine ⟨k + n, ended.done, ended.answer, ended.idle, .inr ?_⟩
      rcases ended.last with same | later
      · exact ⟨0, ⟨_, _, .round next more⟩, more.2, same.trans past⟩
      · exact later.later
    · exact ⟨1, .of_spent next more⟩

/-- A run until idle over callbacks that do not run the scheduler ends. It answers how many it
fired, and some are left only if these are no fewer than its budget. It begins no batch once the
budget is spent, but fires each to its end; so it keeps within the budget if no more than one
callback is ever queued. -/
theorem runUntilIdle_budget (actions : String → List Action)
    (quiet : ∀ name, Quiet actions name) (scheduler : ManualScheduler String) (maxTicks : Int) :
    let m := Machine.calling scheduler (.runUntilIdle maxTicks)
    ∃ fuel d, (∀ more, m.run actions (fuel + more) = some d) ∧
      d.answer = some ↑d.past.length ∧
      (d.past.length < maxTicks → d.scheduler.queue = []) ∧
      (d.past = [] ∨ LastBatch actions m maxTicks d.past) ∧
      ((∀ k, ((Machine.step actions)^[k] m).scheduler.queue.length ≤ 1) → 0 ≤ maxTicks →
        d.past.length ≤ maxTicks) := by
  intro m
  have begins : m.step actions = ⟨scheduler, [.round maxTicks 0], [], none⟩ := rfl
  have next : (m.step actions).tasks = [.round maxTicks (m.step actions).past.length] := by
    rw [begins]
    rfl
  obtain ⟨n, ended⟩ := rounds_end quiet _ next (Int.self_le_toNat _)
  have last : _ ∨ LastBatch actions m maxTicks _ := ended.last.imp_right (LastBatch.later (n := 1))
  rw [← Function.iterate_succ_apply] at ended last
  rw [begins] at last
  refine ⟨n + 1, _, run_of_done ended.done, ended.answer, ended.idle, last, ?_⟩
  intro single budget
  rcases last with none | ⟨k, _, within, whole⟩
  · rw [none]
    exact budget
  · have one := single k
    rw [whole, List.length_append]
    omega

/-- A callback that schedules itself again, like a tick, fires three times and then waits. -/
theorem runUntilIdle_budget_tick :
    let actions : String → List Action := fun name => [.schedule name]
    let m := Machine.calling ⟨[(1, "tick")], 1⟩ (.runUntilIdle 3)
    (∀ name, Quiet actions name) ∧
      ∃ fuel d, (∀ more, m.run actions (fuel + more) = some d) ∧
        d.answer = some ↑d.past.length ∧ (d.past.length < 3 → d.scheduler.queue = []) := by
  intro actions m
  have quiet : ∀ name, Quiet actions name := by
    intro name action member
    obtain rfl := List.mem_singleton.mp member
    rfl
  obtain ⟨fuel, d, ran, answer, idle, _⟩ := runUntilIdle_budget actions quiet ⟨[(1, "tick")], 1⟩ 3
  exact ⟨quiet, fuel, d, ran, answer, fun few => idle (by exact_mod_cast few)⟩

/-- With two callbacks queued a budget of one is overrun. -/
theorem batch_overruns_budget :
    let actions : String → List Action := fun _ => []
    let m := Machine.calling ⟨[(1, "first"), (2, "second")], 2⟩ (.runUntilIdle 1)
    (∀ name, Quiet actions name) ∧ ∃ d, m.run actions 9 = some d ∧
      d.past = [(1, "first"), (2, "second")] ∧ d.answer = some 2 ∧ ¬ (d.past.length : Int) ≤ 1 := by
  intro actions m
  refine ⟨?_, _, rfl, rfl, rfl, by decide⟩
  rintro name action ⟨⟩

end Toolpath.Callbacks
