import Mathlib
import Toolpath.Proofs.Numeric.Exact
import Toolpath.Proofs.Playback.Run

/-! How many ticks a run takes, in exact arithmetic. A tick that does not arrive brings the tool
nearer to its target by one step length, straight ahead; so a move takes one tick for each whole
step length of its way and one more to arrive, also where the way is a whole number of steps. -/
namespace Toolpath
open Exact

namespace Pace

/-- How far a tick goes. -/
noncomputable def length (pace : Pace ℝ) : MoveKind → ℝ
  | .rapid => pace.speed / pace.divisor * pace.rapidFactor
  | .linear => pace.speed / pace.divisor

structure Positive (pace : Pace ℝ) : Prop where
  speed : 0 < pace.speed
  divisor : 0 < pace.divisor
  rapidFactor : 0 < pace.rapidFactor

/-- The ticks of a move over a distance: one for each whole step length, and one to arrive. -/
noncomputable def ticks (pace : Pace ℝ) (kind : MoveKind) (distance : ℝ) : ℕ :=
  ⌊distance / pace.length kind⌋₊ + 1

/-- The ticks of each move of a program, the first one from the point given. -/
noncomputable def tickCounts (pace : Pace ℝ) (x y : ℝ) : List (Move ℝ) → List ℕ
  | [] => []
  | move :: rest =>
    pace.ticks move.kind (Planar.distance x y move.x move.y) :: pace.tickCounts move.x move.y rest

variable {pace : Pace ℝ}

theorem tickCounts_length (x y : ℝ) (moves : List (Move ℝ)) :
    (pace.tickCounts x y moves).length = moves.length := by
  induction moves generalizing x y with
  | nil => rfl
  | cons move rest ih => rw [tickCounts, List.length_cons, List.length_cons, ih]

theorem tickCounts_pos {x y : ℝ} {moves : List (Move ℝ)} (loaded : moves ≠ []) :
    0 < (pace.tickCounts x y moves).sum := by
  cases moves with
  | nil => exact absurd rfl loaded
  | cons move rest =>
    rw [tickCounts, List.sum_cons, ticks]
    omega

theorem Positive.length_pos (positive : pace.Positive) (kind : MoveKind) : 0 < pace.length kind := by
  have linear : 0 < pace.speed / pace.divisor := div_pos positive.speed positive.divisor
  cases kind with
  | linear => exact linear
  | rapid => exact mul_pos linear positive.rapidFactor

theorem Positive.stepLength_eq (positive : pace.Positive) (kind : MoveKind) :
    pace.stepLength kind = .ok (pace.length kind) := by
  rw [stepLength, quotient_eq positive.divisor.ne']
  cases kind <;> rfl

/-- A tick more is spent as long as the way holds the step lengths of those before it. -/
theorem Positive.lt_ticks_iff (positive : pace.Positive) {kind : MoveKind} {distance : ℝ}
    (nonnegative : 0 ≤ distance) {n : ℕ} :
    n < pace.ticks kind distance ↔ n * pace.length kind ≤ distance := by
  have step := positive.length_pos kind
  rw [ticks, Nat.lt_succ_iff, Nat.le_floor_iff (by positivity), le_div_iff₀ step]

end Pace

/-- How many of the counts are spent, one after the other, by `n`. -/
def spent : List ℕ → ℕ → ℕ
  | [], _ => 0
  | count :: rest, n => if n < count then 0 else spent rest (n - count) + 1

theorem spent_of_sum_le {counts : List ℕ} {n : ℕ} (whole : counts.sum ≤ n) :
    spent counts n = counts.length := by
  induction counts generalizing n with
  | nil => rfl
  | cons count rest ih =>
    rw [List.sum_cons] at whole
    rw [spent, if_neg (by omega), ih (by omega), List.length_cons]

/-- While a count is being spent, those before it are. -/
theorem spent_within {counts : List ℕ} {i count j : ℕ} (here : counts[i]? = some count)
    (within : j < count) : spent counts ((counts.take i).sum + j) = i := by
  induction counts generalizing i with
  | nil => cases here
  | cons first rest ih =>
    cases i with
    | zero =>
      cases here
      rw [List.take_zero, List.sum_nil, Nat.zero_add, spent, if_pos within]
    | succ i =>
      have later := ih (i := i) here
      rw [List.take_succ_cons, List.sum_cons, spent, if_neg (by omega), Nat.add_assoc,
        Nat.add_sub_cancel_left, later]

theorem sum_within {counts : List ℕ} {i count j : ℕ} (here : counts[i]? = some count)
    (within : j < count) : (counts.take i).sum + j < counts.sum := by
  obtain ⟨bound, same⟩ := List.getElem?_eq_some_iff.mp here
  have split := List.sum_take_add_sum_drop counts i
  rw [List.drop_eq_getElem_cons bound, List.sum_cons, same] at split
  omega

namespace PlaybackState
variable {s : PlaybackState ℝ} {target : Move ℝ} {pace : Pace ℝ} {length : ℝ} {total : ℕ}

theorem remaining_nonneg (s : PlaybackState ℝ) (target : Move ℝ) : 0 ≤ s.remaining target :=
  distance_nonneg _ _ _ _

/-- The state with its tool so far along the straight way to the target. -/
noncomputable def forward (s : PlaybackState ℝ) (target : Move ℝ) (length : ℝ) : PlaybackState ℝ :=
  { s with
    x := (Planar.lerp s.x s.y target.x target.y (length / s.remaining target)).1
    y := (Planar.lerp s.x s.y target.x target.y (length / s.remaining target)).2 }

/-- A tick arrives if less than a step length is left, and moves the tool forward by it otherwise. -/
noncomputable def tick (s : PlaybackState ℝ) (target : Move ℝ) (total : ℕ) (pace : Pace ℝ) :
    PlaybackState ℝ :=
  if s.remaining target < pace.length target.kind then s.reach target total
  else s.forward target (pace.length target.kind)

theorem approach_exact (positive : pace.Positive) :
    s.approach target total pace = .ok (s.tick target total pace) := by
  have step := positive.length_pos target.kind
  rw [approach, tick, positive.stepLength_eq]
  simp only [bind, Except.bind, lt_eq, decide_eq_true_eq]
  split
  · rfl
  · rename_i beyond
    rw [quotient_eq (by linarith)]
    rfl

/-- Moving forward shortens the way by just as much. -/
theorem remaining_forward (positive : 0 < length) (within : length ≤ s.remaining target) :
    (s.forward target length).remaining target = s.remaining target - length := by
  have way : 0 < s.remaining target := positive.trans_le within
  have fraction : length / s.remaining target ≤ 1 := (div_le_one way).mpr within
  calc (s.forward target length).remaining target
      = |1 - length / s.remaining target| * s.remaining target := distance_lerp _ _ _ _ _
    _ = (1 - length / s.remaining target) * s.remaining target := by
        rw [abs_of_nonneg (by linarith)]
    _ = s.remaining target - length := by
        rw [sub_mul, one_mul, div_mul_cancel₀ _ way.ne']

theorem forward_mem_segment (positive : 0 < length) (within : length ≤ s.remaining target) :
    ((s.forward target length).x, (s.forward target length).y) ∈
      segment ℝ (s.x, s.y) (target.x, target.y) := by
  have way : 0 < s.remaining target := positive.trans_le within
  exact lerp_mem_segment _ _ _ _ (by positivity) ((div_le_one way).mpr within)

/-- As long as the way holds whole step lengths, each tick takes one of them off. -/
theorem remaining_iterate (positive : 0 < length) {n : ℕ}
    (within : n * length ≤ s.remaining target) :
    ((fun s : PlaybackState ℝ => s.forward target length)^[n] s).remaining target =
      s.remaining target - n * length := by
  induction n with
  | zero => simp
  | succ n ih =>
    push_cast at within ⊢
    have before := ih (by linarith)
    rw [Function.iterate_succ_apply', remaining_forward positive (by rw [before]; linarith), before]
    ring

/-- A run that is at work: it is complete if no move is left and running otherwise. -/
structure Underway (moves : List (Move ℝ)) (s : PlaybackState ℝ) : Prop where
  same : s.Consistent moves
  status : s.status = if moves.length ≤ s.index then .complete else .running

theorem reach_underway {moves : List (Move ℝ)} (same : s.Consistent moves)
    (next : moves[s.index.toNat]? = some target) : Underway moves (s.reach target moves.length) :=
  ⟨reach_consistent same next, rfl⟩

/-- On the way only the tool moves. -/
theorem iterate_forward (s : PlaybackState ℝ) (target : Move ℝ) (length : ℝ) (n : ℕ) :
    ∃ x y, (fun s : PlaybackState ℝ => s.forward target length)^[n] s = { s with x, y } := by
  induction n with
  | zero => exact ⟨s.x, s.y, rfl⟩
  | succ n ih =>
    obtain ⟨x, y, eq⟩ := ih
    rw [Function.iterate_succ_apply', eq]
    exact ⟨_, _, rfl⟩

end PlaybackState

namespace Engine
open PlaybackState
variable {e : Engine ℝ} {n : ℕ}

/-- The engine after `n` ticks. -/
noncomputable def ticked (e : Engine ℝ) (n : ℕ) : Engine ℝ := (fun e => e.step.state)^[n] e

theorem ticked_succ (e : Engine ℝ) (n : ℕ) : e.ticked (n + 1) = (e.ticked n).step.state :=
  Function.iterate_succ_apply' _ n e

theorem ticked_add (e : Engine ℝ) (m n : ℕ) : e.ticked (m + n) = (e.ticked m).ticked n := by
  rw [ticked, Nat.add_comm, Function.iterate_add_apply]
  rfl

theorem step_exact {target : Move ℝ} (positive : e.pace.Positive)
    (same : e.state.Consistent e.moves) (running : e.state.status = .running)
    (next : e.moves[e.state.index.toNat]? = some target) :
    e.step.result = .ok () ∧
      e.step.state = { e with state := e.state.tick target e.moves.length e.pace } := by
  obtain ⟨_, here, stepped⟩ := @Consistent.step_eq _ _ _ _ e.pace _ same running
  rw [next, Option.some.injEq] at here
  subst here
  rw [step, if_pos (isRunning_iff.mpr running), stepped, approach_exact positive]
  exact ⟨rfl, rfl⟩

theorem step_resting (resting : ¬ e.state.status = .running) : e.step = .quiet e () := by
  rw [step, if_neg (mt isRunning_iff.mp resting)]

theorem ticked_resting (resting : ¬ e.state.status = .running) (n : ℕ) : e.ticked n = e := by
  induction n with
  | zero => rfl
  | succ n ih =>
    rw [ticked_succ, ih, step_resting resting]
    rfl

/-- On the way to a target the ticks take its whole step lengths off, one after the other. -/
theorem ticked_within {target : Move ℝ} (positive : e.pace.Positive)
    (same : e.state.Consistent e.moves) (running : e.state.status = .running)
    (next : e.moves[e.state.index.toNat]? = some target)
    (within : n * e.pace.length target.kind ≤ e.state.remaining target) :
    e.ticked n = { e with state :=
      (fun s : PlaybackState ℝ => s.forward target (e.pace.length target.kind))^[n] e.state } := by
  have step := positive.length_pos target.kind
  induction n with
  | zero => rfl
  | succ n ih =>
    push_cast at within
    have taken : n * e.pace.length target.kind ≤ e.state.remaining target := by linarith
    have left := remaining_iterate step taken
    rw [ticked_succ, ih taken, Function.iterate_succ_apply']
    obtain ⟨x, y, eq⟩ := iterate_forward e.state target (e.pace.length target.kind) n
    rw [eq] at left ⊢
    have stepped := step_exact (e := { e with state := { e.state with x, y } }) positive
      (same.moved running x y) running next
    have beyond : ¬ e.pace.length target.kind > remaining { e.state with x, y } target := by
      rw [left]
      linarith
    rw [stepped.2, tick]
    exact congrArg (fun state => { e with state }) (if_neg beyond)

/-- The ticks of a move end at its target, and not before. -/
theorem ticked_move {target : Move ℝ} (positive : e.pace.Positive)
    (same : e.state.Consistent e.moves) (running : e.state.status = .running)
    (next : e.moves[e.state.index.toNat]? = some target) :
    let count := e.pace.ticks target.kind (e.state.remaining target)
    (∀ j < count, (e.ticked j).state.index = e.state.index ∧
      (e.ticked j).state.status = .running) ∧
    ∃ t, e.ticked count = { e with state := t } ∧ Underway e.moves t ∧
      t.index = e.state.index + 1 ∧ t.x = target.x ∧ t.y = target.y := by
  intro count
  have whole (j : ℕ) : j < count ↔ j * e.pace.length target.kind ≤ e.state.remaining target :=
    positive.lt_ticks_iff (e.state.remaining_nonneg target)
  constructor
  · intro j below
    obtain ⟨x, y, eq⟩ := iterate_forward e.state target (e.pace.length target.kind) j
    rw [ticked_within positive same running next ((whole j).mp below), eq]
    exact ⟨rfl, running⟩
  · have last := (whole (count - 1)).mp (Nat.lt_succ_self _)
    have left := remaining_iterate (positive.length_pos target.kind) last
    obtain ⟨x, y, eq⟩ := iterate_forward e.state target (e.pace.length target.kind) (count - 1)
    rw [eq] at left
    have moved := same.moved running x y
    have within : remaining { e.state with x, y } target < e.pace.length target.kind := by
      have beyond : e.state.remaining target < (count - 1 + 1 : ℕ) * e.pace.length target.kind :=
        lt_of_not_ge (mt (whole count).mpr (lt_irrefl count))
      push_cast at beyond
      linarith
    have stepped := step_exact (e := { e with state := { e.state with x, y } }) positive moved
      running next
    refine ⟨_, ?_, reach_underway moved next, rfl, rfl, rfl⟩
    rw [show count = count - 1 + 1 from rfl, ticked_succ,
      ticked_within positive same running next last, eq, stepped.2, tick]
    exact congrArg (fun state => { e with state }) (if_pos within)

/-- A run at work has come, after any number of ticks, as far as the ticks of its moves allow. -/
theorem ticked_run {rest : List (Move ℝ)} {counts : List ℕ} (positive : e.pace.Positive)
    (underway : Underway e.moves e.state) (left : e.moves.drop e.state.index.toNat = rest)
    (counted : e.pace.tickCounts e.state.x e.state.y rest = counts) (n : ℕ) :
    (e.ticked n).state.index = e.state.index + spent counts n ∧
      (e.ticked n).state.status = if counts.sum ≤ n then .complete else .running := by
  have nonnegative := underway.same.nonnegative
  have status := underway.status
  induction rest generalizing e counts n with
  | nil =>
    have finished := List.drop_eq_nil_iff.mp left
    rw [if_pos (by omega)] at status
    rw [ticked_resting (by rw [status]; decide), status, ← counted]
    simp [Pace.tickCounts, spent]
  | cons target rest ih =>
    have next : e.moves[e.state.index.toNat]? = some target := by
      rw [← List.head?_drop, left, List.head?_cons]
    have below := (List.getElem?_eq_some_iff.mp next).1
    rw [if_neg (by omega)] at status
    obtain ⟨before, t, arrived, later, index, x, y⟩ :=
      ticked_move positive underway.same status next
    have split : counts = e.pace.ticks target.kind (e.state.remaining target) ::
        e.pace.tickCounts t.x t.y rest := by
      rw [← counted, x, y]
      rfl
    generalize e.pace.ticks target.kind (e.state.remaining target) = count at *
    rw [split, List.sum_cons, spent]
    by_cases early : n < count
    · rw [if_pos early, if_neg (by omega), (before n early).1, (before n early).2]
      exact ⟨by simp, rfl⟩
    · obtain ⟨more, rfl⟩ := Nat.exists_eq_add_of_le (Nat.le_of_not_lt early)
      have onward : e.moves.drop t.index.toNat = rest := by
        rw [index, show (e.state.index + 1).toNat = e.state.index.toNat + 1 by omega,
          ← List.tail_drop, left, List.tail_cons]
      obtain ⟨reached, ended⟩ := ih (e := { e with state := t }) positive later onward rfl more
        later.same.nonnegative later.status
      rw [ticked_add, arrived, reached, ended, if_neg early, Nat.add_sub_cancel_left]
      constructor
      · change t.index + (spent (e.pace.tickCounts t.x t.y rest) more : ℤ) = _
        rw [index]
        push_cast
        ring
      · exact if_congr (by change (e.pace.tickCounts t.x t.y rest).sum ≤ more ↔ _; omega) rfl rfl

/-- No tick of a run at work has a fault. -/
theorem runFrom_exact (positive : e.pace.Positive) (same : e.state.Consistent e.moves) (fuel : ℕ)
    (announced : List (PlaybackState ℝ)) (log : List Log.Entry) :
    (e.runFrom fuel announced log).state = e.ticked fuel ∧
      (e.runFrom fuel announced log).result = .ok () := by
  induction fuel generalizing e announced log with
  | zero => exact ⟨rfl, rfl⟩
  | succ fuel ih =>
    rw [runFrom]
    by_cases running : e.state.status = .running
    · obtain ⟨target, next, _⟩ := same.target running
      obtain ⟨result, stepped⟩ := step_exact positive same running next
      have kept := step_sound same
      have further := ih (e := e.step.state) (by rw [stepped]; exact positive)
        (by rw [kept.moves]; exact kept.state)
      simp only [isRunning, running, decide_true, if_true, result]
      exact further _ _
    · rw [if_neg (mt isRunning_iff.mp running), ticked_resting running]
      exact ⟨rfl, rfl⟩

/-- A run that is not paused starts at the origin. -/
theorem start_anew (loaded : e.moves ≠ []) (paused : ¬ e.state.status = .paused) :
    e.start = e.enter { PlaybackState.initial with status := .running } true := by
  rw [start, if_neg (by simpa using loaded), if_neg (mt isPaused_iff.mp paused)]

theorem started_underway {moves : List (Move ℝ)} (loaded : moves ≠ []) :
    Underway moves { PlaybackState.initial with status := .running } where
  same := started_consistent loaded
  status := by
    rw [if_neg]
    have := List.length_pos_iff.mpr loaded
    change ¬ (moves.length : ℤ) ≤ 0
    omega

theorem started_run (positive : e.pace.Positive) (loaded : e.moves ≠ [])
    (paused : ¬ e.state.status = .paused) (n : ℕ) :
    (e.start.state.ticked n).state.index = spent (e.pace.tickCounts 0 0 e.moves) n ∧
      (e.start.state.ticked n).state.status =
        if (e.pace.tickCounts 0 0 e.moves).sum ≤ n then .complete else .running := by
  have counted : e.pace.tickCounts Scalar.zero Scalar.zero e.moves =
      e.pace.tickCounts 0 0 e.moves := by rw [zero_eq]
  rw [start_anew loaded paused]
  have run := ticked_run (e := { e with state := { PlaybackState.initial with status := .running } })
    positive (started_underway loaded) rfl counted n
  exact ⟨run.1.trans (Int.zero_add _), run.2⟩

theorem runToCompletion_exact (positive : e.pace.Positive) (loaded : e.moves ≠ [])
    (running : ¬ e.state.status = .running) (paused : ¬ e.state.status = .paused) (maxSteps : Int) :
    (e.runToCompletion maxSteps).state = e.start.state.ticked maxSteps.toNat ∧
      (e.runToCompletion maxSteps).result = .ok () := by
  have begun := start_anew loaded paused
  have whole := runFrom_exact (e := e.start.state) (by rw [begun]; exact positive)
    (by rw [begun]; exact started_consistent loaded) maxSteps.toNat
    e.start.announced.reverse e.start.log.reverse
  have answer : e.start.result = .ok true := by rw [begun]; rfl
  rw [runToCompletion, if_neg (mt isRunning_iff.mp running)]
  simp only [answer, whole.2]
  split
  · exact ⟨whole.1, rfl⟩
  · exact whole

/-- In exact arithmetic, a tick of a run that has a target either is within one step length of it
and reaches it, or goes one step length straight towards it. So from the start of a run, move `i`
takes one tick for each whole step length of its way and one more, and a run to completion is
complete exactly if it is allowed the ticks of all the moves. -/
theorem run_takes (moves : List (Move ℝ)) (speed : Int) (divisor rapidFactor : ℝ)
    (operations : List (Operation ℝ)) (divisor_pos : 0 < divisor)
    (rapidFactor_pos : 0 < rapidFactor) :
    let e := (Engine.new moves speed divisor rapidFactor).performAll operations
    let counts := e.pace.tickCounts 0 0 e.moves
    (∀ kind, e.pace.stepLength kind = .ok (e.pace.length kind)) ∧
    (e.state.status = .running → ∃ target, e.moves[e.state.index.toNat]? = some target ∧
      e.step.result = .ok () ∧
      (e.state.remaining target < e.pace.length target.kind ∧
          e.step.state = { e with state := e.state.reach target e.moves.length } ∨
        ∃ x y, e.step.state = { e with state := { e.state with x, y } } ∧
          (x, y) ∈ segment ℝ (e.state.x, e.state.y) (target.x, target.y) ∧
          e.step.state.state.remaining target =
            e.state.remaining target - e.pace.length target.kind)) ∧
    (e.moves ≠ [] → e.state.status ≠ .running → e.state.status ≠ .paused →
      (∀ i count j, counts[i]? = some count → j < count →
        (e.start.state.ticked ((counts.take i).sum + j)).state.index = i ∧
        (e.start.state.ticked ((counts.take i).sum + j)).state.status = .running) ∧
      (∀ n ≥ counts.sum, (e.start.state.ticked n).state.index = e.moves.length ∧
        (e.start.state.ticked n).state.status = .complete) ∧
      ∀ maxSteps : Int, (e.runToCompletion maxSteps).result = .ok () ∧
        (e.runToCompletion maxSteps).state.state.status =
          if counts.sum ≤ maxSteps then .complete else .running) := by
  intro e counts
  have same : e.state.Consistent e.moves := performAll_consistent new_consistent
  have positive : e.pace.Positive := by
    obtain ⟨percentage, least, _, pace⟩ :=
      @performAll_pace _ _ _ moves speed divisor rapidFactor operations
    rw [pace]
    exact ⟨Int.cast_pos.mpr least, divisor_pos, rapidFactor_pos⟩
  refine ⟨positive.stepLength_eq, ?_, ?_⟩
  · intro running
    obtain ⟨target, next, _⟩ := same.target running
    obtain ⟨result, stepped⟩ := step_exact positive same running next
    have step := positive.length_pos target.kind
    refine ⟨target, next, result, ?_⟩
    rw [stepped, tick]
    by_cases within : e.state.remaining target < e.pace.length target.kind
    · exact .inl ⟨within, by rw [if_pos within]⟩
    · rw [if_neg within]
      rw [not_lt] at within
      exact .inr ⟨_, _, rfl, forward_mem_segment step within, remaining_forward step within⟩
  · intro loaded running paused
    have run := started_run positive loaded paused
    have some : 0 < counts.sum := Pace.tickCounts_pos loaded
    refine ⟨?_, ?_, ?_⟩
    · intro i count j here within
      obtain ⟨index, status⟩ := run ((counts.take i).sum + j)
      rw [index, status, spent_within here within, if_neg (sum_within here within).not_ge]
      exact ⟨rfl, rfl⟩
    · intro n whole
      obtain ⟨index, status⟩ := run n
      rw [index, status, spent_of_sum_le whole, Pace.tickCounts_length, if_pos whole]
      exact ⟨rfl, rfl⟩
    · intro maxSteps
      obtain ⟨ran, result⟩ := runToCompletion_exact positive loaded running paused maxSteps
      rw [ran, (run _).2]
      exact ⟨result, if_congr (by change counts.sum ≤ _ ↔ _; omega) rfl rfl⟩

theorem run_takes_whole_steps :
    let e : Engine ℝ := Engine.new [⟨.linear, 4, 0, 0, 1⟩] 50 25 3
    (e.runToCompletion 2).state.state.status = .running ∧
      (e.runToCompletion 3).state.state.status = .complete := by
  intro e
  have ran := ((run_takes [⟨.linear, 4, 0, 0, 1⟩] 50 25 3 [] (by norm_num) (by norm_num)).2.2
    (by simp [performAll, Engine.new]) (by decide) (by decide)).2.2
  have length : e.pace.length .linear = 2 := by
    change ((50 : ℤ) : ℝ) / 25 = 2
    norm_num
  have distance : Planar.distance (0 : ℝ) 0 4 0 = 4 := by
    rw [distance_eq]
    norm_num
  have counts : e.pace.tickCounts 0 0 e.moves = [3] := by
    change [⌊Planar.distance (0 : ℝ) 0 4 0 / e.pace.length .linear⌋₊ + 1] = [3]
    rw [distance, length]
    norm_num
  change ∀ maxSteps : Int, _ ∧ (e.runToCompletion maxSteps).state.state.status =
    if ((e.pace.tickCounts 0 0 e.moves).sum : Int) ≤ maxSteps then _ else _ at ran
  rw [counts] at ran
  exact ⟨(ran 2).2, (ran 3).2⟩

end Engine

end Toolpath
