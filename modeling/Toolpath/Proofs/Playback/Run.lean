import Mathlib
import Toolpath.Playback.Engine
import Toolpath.Proofs.Numeric.Ordering
import Toolpath.Proofs.Playback.Step

/-! Every run of an engine keeps its state consistent with its moves, whatever is asked of it and in
any order. The states announced on the way, those inside a run to completion included, are
consistent as well. -/
namespace Toolpath.Engine
open PlaybackState
variable {α β : Type} [Scalar α] {e : Engine α} {s : PlaybackState α}

/-- An operation of `e` changed nothing but its state, and all that it took on is consistent with
the moves. -/
structure Sound (e : Engine α) (o : Outcome α (Engine α) β) : Prop where
  kept : o.state = { e with state := o.state.state }
  state : o.state.state.Consistent e.moves
  announced : ∀ s ∈ o.announced, s.Consistent e.moves

theorem Sound.moves {o : Outcome α (Engine α) β} (sound : Sound e o) : o.state.moves = e.moves := by
  rw [sound.kept]

theorem Sound.map {γ : Type} {f : β → γ} {o : Outcome α (Engine α) β} (sound : Sound e o) :
    Sound e (o.map f) :=
  ⟨sound.kept, sound.state, sound.announced⟩

/-- An engine that differs from `e` in its state goes on as `e` would. -/
theorem Sound.of_kept {d : Engine α} {o : Outcome α (Engine α) β}
    (kept : d = { e with state := d.state })
    (sound : Sound d o) : Sound e o := by
  obtain ⟨same, state, announced⟩ := sound
  rw [kept] at same state announced
  exact ⟨same, state, announced⟩

theorem new_consistent {moves : List (Move α)} {speed : Int} {divisor rapidFactor : α} :
    (new moves speed divisor rapidFactor).state.Consistent
    (new moves speed divisor rapidFactor).moves :=
  initial_consistent moves

theorem enter_sound {answer : β} (same : s.Consistent e.moves) : Sound e (e.enter s answer) where
  kept := rfl
  state := same
  announced := by simpa [enter] using same

theorem ignore_sound {note : String} {answer : β} (same : e.state.Consistent e.moves) :
    Sound e (e.ignore note answer) where
  kept := rfl
  state := same
  announced := by simp [ignore, Outcome.noted]

theorem reset_sound : Sound e e.reset := enter_sound (initial_consistent e.moves)

theorem load_sound {moves : List (Move α)} : Sound { e with moves } (e.load moves) := reset_sound

theorem pause_sound (same : e.state.Consistent e.moves) : Sound e e.pause := by
  unfold pause
  split
  · rename_i running
    have remaining := same.unfinished (.inl (isRunning_iff.mp running))
    exact enter_sound (same.withStatus (.inr rfl) remaining)
  · exact ignore_sound same

theorem resume_sound (same : e.state.Consistent e.moves) : Sound e e.resume := by
  unfold resume
  split
  · rename_i paused
    have remaining := same.unfinished (.inr (isPaused_iff.mp paused))
    exact enter_sound (same.withStatus (.inl rfl) remaining)
  · exact ignore_sound same

theorem start_sound (same : e.state.Consistent e.moves) : Sound e e.start := by
  unfold start
  split
  · exact ignore_sound same
  · rename_i nonempty
    split
    · exact resume_sound same
    · exact enter_sound (started_consistent (by simpa using nonempty))

theorem togglePause_sound (same : e.state.Consistent e.moves) : Sound e e.togglePause := by
  unfold togglePause
  split
  · exact pause_sound same
  · exact resume_sound same

/-! Which operations leave a run running. -/

omit [Scalar α] in
theorem pause_resting (e : Engine α) : e.pause.state.state.isRunning = false := by
  unfold pause
  split
  · rfl
  · rename_i resting
    exact Bool.eq_false_of_not_eq_true resting

omit [Scalar α] in
theorem resume_result (e : Engine α) :
    (e.resume.result = .ok true ∧ e.resume.state.state.isRunning = true) ∨
      (e.resume.result = .ok false ∧ e.resume.state = e) := by
  unfold resume
  split
  · exact .inl ⟨rfl, rfl⟩
  · exact .inr ⟨rfl, rfl⟩

/-- Starting answers whether the run is running then; it is not if there are no moves. -/
theorem start_result (same : e.state.Consistent e.moves) :
    e.start.result = .ok e.start.state.state.isRunning := by
  unfold start
  split
  · rename_i empty
    have resting : e.state.status ≠ .running := by
      intro running
      have remaining := same.unfinished (.inl running)
      have nonnegative := same.nonnegative
      rw [List.isEmpty_iff.mp empty, List.length_nil] at remaining
      omega
    change Except.ok false = Except.ok e.state.isRunning
    rw [isRunning, decide_eq_false resting]
  · split
    · rename_i paused
      rw [resume, if_pos paused]
      rfl
    · rfl

variable [Metric α]

theorem step_sound (same : e.state.Consistent e.moves) : Sound e e.step := by
  unfold step
  split
  · split
    · rename_i state stepped
      exact enter_sound (step_consistent same stepped)
    · exact ⟨rfl, same, by simp [Outcome.failed]⟩
  · exact ⟨rfl, same, by simp [Outcome.quiet]⟩

theorem runFrom_sound {fuel : Nat} {announced : List (PlaybackState α)} {log : List Log.Entry}
    (same : e.state.Consistent e.moves) (before : ∀ s ∈ announced, s.Consistent e.moves) :
    Sound e (e.runFrom fuel announced log) := by
  induction fuel generalizing e announced log with
  | zero => exact ⟨rfl, same, by simpa [runFrom] using before⟩
  | succ fuel ih =>
    have stepped := step_sound same
    have taken : ∀ s ∈ e.step.announced.reverse ++ announced, s.Consistent e.moves := by
      intro s member
      rcases List.mem_append.mp member with new | old
      · exact stepped.announced s (List.mem_reverse.mp new)
      · exact before s old
    rw [runFrom]
    split
    · simp only
      split
      · apply Sound.of_kept stepped.kept
        apply ih
        · rw [stepped.moves]
          exact stepped.state
        · rw [stepped.moves]
          exact taken
      · exact ⟨stepped.kept, stepped.state, fun s member => taken s (List.mem_reverse.mp member)⟩
    · exact ⟨rfl, same, by simpa using before⟩

theorem runToCompletion_sound {maxSteps : Int} (same : e.state.Consistent e.moves) :
    Sound e (e.runToCompletion maxSteps) := by
  have started : Sound e (if e.state.isRunning then .quiet e true else e.start) := by
    split
    · exact ⟨rfl, same, by simp [Outcome.quiet]⟩
    · exact start_sound same
  unfold runToCompletion
  generalize (if e.state.isRunning then Outcome.quiet e true else e.start) = o at started
  have ran : Sound e (o.state.runFrom maxSteps.toNat o.announced.reverse o.log.reverse) := by
    apply Sound.of_kept started.kept
    apply runFrom_sound
    · rw [started.moves]
      exact started.state
    · simpa [started.moves] using started.announced
  simp only
  split
  · exact ⟨started.kept, started.state, started.announced⟩
  · exact ⟨started.kept, started.state, started.announced⟩
  · split
    · split
      · exact ⟨ran.kept, ran.state, ran.announced⟩
      · exact ran
    · exact ran

/-! Operations in any order. -/

inductive Operation (α : Type) where
  | load (moves : List (Move α))
  | reset
  | start
  | pause
  | resume
  | togglePause
  | step
  | setSpeed (speed : Int)
  | runToCompletion (maxSteps : Int)

/-- What an operation comes to, its answer aside. -/
def perform (e : Engine α) : Operation α → Outcome α (Engine α) Unit
  | .load moves => e.load moves
  | .reset => e.reset
  | .start => e.start.map fun _ => ()
  | .pause => e.pause.map fun _ => ()
  | .resume => e.resume.map fun _ => ()
  | .togglePause => e.togglePause.map fun _ => ()
  | .step => e.step
  | .setSpeed speed => .quiet (e.setSpeed speed) ()
  | .runToCompletion maxSteps => e.runToCompletion maxSteps

/-- The engine after operations, each of which may have ended with a fault. -/
def performAll (e : Engine α) (operations : List (Operation α)) : Engine α :=
  operations.foldl (fun e operation => (e.perform operation).state) e

/-- Apart from the state, only loading and setting the speed change an engine. -/
def setUp (e : Engine α) : Operation α → Engine α
  | .load moves => { e with moves }
  | .setSpeed speed => e.setSpeed speed
  | .reset | .start | .pause | .resume | .togglePause | .step | .runToCompletion _ => e

theorem perform_sound {operation : Operation α} (same : e.state.Consistent e.moves) :
    Sound (e.setUp operation) (e.perform operation) := by
  cases operation with
  | load moves => exact load_sound
  | reset => exact reset_sound
  | start => exact (start_sound same).map
  | pause => exact (pause_sound same).map
  | resume => exact (resume_sound same).map
  | togglePause => exact (togglePause_sound same).map
  | step => exact step_sound same
  | setSpeed speed => exact ⟨rfl, same, by simp [perform, Outcome.quiet]⟩
  | runToCompletion maxSteps => exact runToCompletion_sound same

theorem perform_consistent {operation : Operation α} (same : e.state.Consistent e.moves) :
    (e.perform operation).state.state.Consistent (e.perform operation).state.moves := by
  have sound := @perform_sound _ _ e _ operation same
  rw [sound.moves]
  exact sound.state

theorem performAll_consistent {operations : List (Operation α)}
    (same : e.state.Consistent e.moves) :
    (e.performAll operations).state.Consistent (e.performAll operations).moves := by
  induction operations generalizing e with
  | nil => exact same
  | cons operation rest ih => exact ih (perform_consistent same)

theorem performAll_concat (operations : List (Operation α)) (operation : Operation α) :
    e.performAll (operations ++ [operation]) =
      ((e.performAll operations).perform operation).state := by
  simp [performAll]

theorem clampSpeed_bounds (speed : Int) :
    minSpeed ≤ clampSpeed speed ∧ clampSpeed speed ≤ maxSpeed := by
  unfold clampSpeed minSpeed maxSpeed
  omega

/-- The pace of a run is the one it was made with, at some percentage of speed. -/
theorem performAll_pace {moves : List (Move α)} {speed : Int} {divisor rapidFactor : α}
    (operations : List (Operation α)) :
    ∃ percentage, minSpeed ≤ percentage ∧ percentage ≤ maxSpeed ∧
      ((new moves speed divisor rapidFactor).performAll operations).pace =
        ⟨Scalar.ofInt percentage, divisor, rapidFactor⟩ := by
  induction operations using List.reverseRecOn with
  | nil => exact ⟨clampSpeed speed, (clampSpeed_bounds speed).1, (clampSpeed_bounds speed).2, rfl⟩
  | append_singleton operations operation ih =>
    have same := @performAll_consistent _ _ _ _ operations
      (@new_consistent _ _ moves speed divisor rapidFactor)
    obtain ⟨percentage, least, greatest, eq⟩ := ih
    rw [performAll_concat]
    generalize (new moves speed divisor rapidFactor).performAll operations = e at *
    simp only [pace, Pace.mk.injEq] at eq ⊢
    rw [(perform_sound same).kept]
    cases operation with
    | setSpeed speed =>
      exact ⟨clampSpeed speed, (clampSpeed_bounds speed).1, (clampSpeed_bounds speed).2, rfl, eq.2⟩
    | _ => exact ⟨percentage, least, greatest, eq⟩

/-! One tick of an engine. -/

theorem step_failed {fault : Fault} (raised : e.step.result = .error fault) :
    e.step = .failed e fault := by
  unfold step at raised ⊢
  split at raised
  · rename_i running
    rw [if_pos running]
    split at raised
    · cases raised
    · rename_i cause ticked
      simp only [Outcome.failed, Except.error.injEq] at raised
      rw [raised]
  · cases raised

theorem step_index (same : e.state.Consistent e.moves) :
    e.step.state.state.index = e.state.index ∨ e.step.state.state.index = e.state.index + 1 := by
  unfold step
  split
  · split
    · rename_i state stepped
      exact PlaybackState.step_index same stepped
    · exact .inl rfl
  · exact .inl rfl

theorem step_fault_iff (same : e.state.Consistent e.moves) {fault : Fault} :
    e.step.result = .error fault ↔ e.state.status = .running ∧ ∃ target,
      e.moves[e.state.index.toNat]? = some target ∧
        e.state.approach target e.moves.length e.pace = .error fault := by
  by_cases running : e.state.status = .running
  · obtain ⟨target, next, eq⟩ := @Consistent.step_eq _ _ _ _ e.pace _ same running
    rw [step, if_pos (isRunning_iff.mpr running), eq]
    simp only [running, next, true_and, Option.some.injEq, exists_eq_left']
    cases e.state.approach target e.moves.length e.pace with
    | ok state => simp [enter]
    | error cause => simp [Outcome.failed]
  · rw [step, if_neg (mt isRunning_iff.mp running)]
    simp [running, Outcome.quiet]

/-- In every state that an engine reaches, index, history, feed, line, status and tool agree, and
they agree in every state announced on the way. A tick completes one move at most; one that has a
fault changes nothing, and its cause is a zero divisor or a target that is no distance away with a
step length that is not positive. -/
theorem performAll_agrees (moves : List (Move Float)) (speed : Int) (divisor rapidFactor : Float)
    (operations : List (Operation Float)) :
    let e := (Engine.new moves speed divisor rapidFactor).performAll operations
    e.state.Consistent e.moves ∧
      (∀ operation, ∀ s ∈ (e.perform operation).announced,
        s.Consistent (e.perform operation).state.moves) ∧
      (e.step.state.state.index = e.state.index ∨ e.step.state.state.index = e.state.index + 1) ∧
      (∀ fault, e.step.result = .error fault → e.step = .failed e fault) ∧
      ((∃ fault, e.step.result = .error fault) ↔ e.state.status = .running ∧ ∃ target,
        e.moves[e.state.index.toNat]? = some target ∧
          ((e.divisor == Scalar.zero) = true ∨
            ∃ length, e.pace.stepLength target.kind = .ok length ∧
              (e.state.remaining target == Scalar.zero) = true ∧ ¬ Scalar.zero < length)) := by
  intro e
  have same : e.state.Consistent e.moves := performAll_consistent new_consistent
  refine ⟨same, ?_, step_index same, fun _ => step_failed, ?_⟩
  · intro operation
    rw [(perform_sound same).moves]
    exact (perform_sound same).announced
  simp only [step_fault_iff same, approach_error_iff]
  -- a remaining distance of zero is within the step length exactly if zero is
  have within (target : Move Float) (length : Float) :
      (Scalar.same (e.state.remaining target) Scalar.zero = true ∧
        Scalar.lt (e.state.remaining target) length = false) ↔
      ((e.state.remaining target == Scalar.zero) = true ∧ ¬ Scalar.zero < length) := by
    refine and_congr_right fun zero => ?_
    change decide _ = false ↔ _
    rw [decide_eq_false_iff_not, Binary64.lt_of_beq_zero zero]
  simp only [within]
  constructor
  · rintro ⟨_, running, target, next, _, cause⟩
    exact ⟨running, target, next, cause⟩
  · rintro ⟨running, target, next, cause⟩
    exact ⟨_, running, target, next, rfl, cause⟩

end Toolpath.Engine
