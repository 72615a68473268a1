import Mathlib
import Toolpath.Playback.State

/-! What one tick can do. The parts of a state that repeat each other agree before and after it:
history, feed and line are those of the moves counted by the index, and the status says whether
moves are left. -/
namespace Toolpath.PlaybackState
variable {α : Type} [Scalar α] {moves : List (Move α)} {s t : PlaybackState α} {pace : Pace α}

/-- The state and the moves it runs over say the same. -/
structure Consistent (moves : List (Move α)) (s : PlaybackState α) : Prop where
  nonnegative : 0 ≤ s.index
  bounded : s.index ≤ moves.length
  history : s.history.toList = .start :: (moves.take s.index.toNat).map .ofMove
  atStart : s.index = 0 → s.feed = Scalar.zero ∧ s.line = 0
  atMove : ∀ k : Nat, s.index = k + 1 →
    ∃ move, moves[k]? = some move ∧ s.feed = move.feed ∧ s.line = move.line
  unfinished : s.status = .running ∨ s.status = .paused → s.index < moves.length
  complete : s.status = .complete ↔ s.index = moves.length ∧ 0 < moves.length
  resting : s.status = .complete → ∃ move, moves.getLast? = some move ∧ s.x = move.x ∧ s.y = move.y
  idle : s.status = .idle → s = initial

theorem initial_consistent (moves : List (Move α)) : initial.Consistent moves where
  nonnegative := le_rfl
  bounded := by simp [initial]
  history := by simp [initial, History.start, History.toList]
  atStart _ := ⟨rfl, rfl⟩
  atMove k h := by
    simp only [initial] at h
    omega
  unfinished h := by simp [initial] at h
  complete := by
    simp only [initial, reduceCtorEq, false_iff, not_and, not_lt]
    intro h
    omega
  resting h := by simp [initial] at h
  idle _ := rfl

/-- Where the moves are not exhausted, a state says the same with its status running and with it
paused. -/
theorem Consistent.withStatus {status : PlaybackStatus} (same : s.Consistent moves)
    (active : status = .running ∨ status = .paused) (remaining : s.index < moves.length) :
    ({ s with status } : PlaybackState α).Consistent moves where
  nonnegative := same.nonnegative
  bounded := same.bounded
  history := same.history
  atStart := same.atStart
  atMove := same.atMove
  unfinished _ := remaining
  complete := by
    rcases active with rfl | rfl <;> simp only [reduceCtorEq, false_iff, not_and, not_lt] <;> omega
  resting h := by rcases active with rfl | rfl <;> cases h
  idle h := by rcases active with rfl | rfl <;> cases h

theorem started_consistent (h : moves ≠ []) :
    ({ initial with status := .running } : PlaybackState α).Consistent moves := by
  apply (initial_consistent moves).withStatus (.inl rfl)
  have := List.length_pos_iff.mpr h
  simpa [initial] using this

/-- A running state has a next target, the one that the index counts off. -/
theorem Consistent.target (same : s.Consistent moves) (running : s.status = .running) :
    ∃ target, moves[s.index.toNat]? = some target ∧ Position.item? moves s.index = some target := by
  have nonnegative := same.nonnegative
  have remaining := same.unfinished (.inl running)
  refine ⟨moves[s.index.toNat], List.getElem?_eq_getElem (by omega), ?_⟩
  have front : Position.fromFront moves.length s.index = s.index := by
    rw [Position.fromFront, if_neg (by omega)]
  rw [Position.item?, Position.place?, front, if_pos ⟨nonnegative, remaining⟩]
  exact List.getElem?_eq_getElem (by omega)

theorem reach_consistent {target : Move α} (same : s.Consistent moves)
    (next : moves[s.index.toNat]? = some target) :
    (s.reach target moves.length).Consistent moves := by
  have nonnegative := same.nonnegative
  obtain ⟨below, targetEq⟩ := List.getElem?_eq_some_iff.mp next
  have count : (s.index + 1).toNat = s.index.toNat + 1 := by omega
  have status : (s.reach target moves.length).status =
      if (moves.length : Int) ≤ s.index + 1 then .complete else .running := rfl
  refine ⟨?_, ?_, ?_, ?_, ?_, ?_, ?_, ?_, ?_⟩
  · change 0 ≤ s.index + 1
    omega
  · change s.index + 1 ≤ moves.length
    omega
  · change (s.history.append (.ofMove target)).toList =
      .start :: (moves.take (s.index + 1).toNat).map .ofMove
    rw [History.toList_append, same.history, count, List.take_succ_eq_append_getElem below,
      targetEq]
    simp
  · intro h
    change s.index + 1 = 0 at h
    omega
  · intro k h
    change s.index + 1 = k + 1 at h
    have : s.index.toNat = k := by omega
    subst this
    exact ⟨target, next, rfl, rfl⟩
  · intro active
    change s.index + 1 < moves.length
    rw [status] at active
    split at active
    · rcases active with h | h <;> cases h
    · omega
  · change _ ↔ s.index + 1 = moves.length ∧ _
    rw [status]
    split
    · simp only [true_iff]
      omega
    · simp only [reduceCtorEq, false_iff, not_and, not_lt]
      omega
  · intro finished
    rw [status] at finished
    split at finished
    · refine ⟨target, ?_, rfl, rfl⟩
      rw [List.getLast?_eq_getElem?, show moves.length - 1 = s.index.toNat by omega, next]
    · cases finished
  · intro h
    rw [status] at h
    split at h <;> cases h

/-- Between waypoints only the tool moves. -/
theorem Consistent.moved (same : s.Consistent moves) (running : s.status = .running) (x y : α) :
    ({ s with x, y } : PlaybackState α).Consistent moves where
  nonnegative := same.nonnegative
  bounded := same.bounded
  history := same.history
  atStart := same.atStart
  atMove := same.atMove
  unfinished := same.unfinished
  complete := same.complete
  resting h := by rw [running] at h; cases h
  idle h := by rw [running] at h; cases h

theorem quotient_error_iff {a b : α} {fault : Fault} :
    Scalar.quotient a b = .error fault ↔
      Scalar.same b Scalar.zero = true ∧ fault = .divisionByZero := by
  unfold Scalar.quotient
  split
  · rename_i zero
    simp only [zero, Except.error.injEq, true_and, eq_comm]
  · rename_i nonzero
    simp [nonzero]

theorem stepLength_error_iff {kind : MoveKind} {fault : Fault} :
    pace.stepLength kind = .error fault ↔
      Scalar.same pace.divisor Scalar.zero = true ∧ fault = .divisionByZero := by
  rw [← @quotient_error_iff _ _ pace.speed, Pace.stepLength]
  cases Scalar.quotient pace.speed pace.divisor with
  | error cause => rfl
  | ok length => simp [bind, Except.bind, pure, Except.pure]

variable [Metric α]

/-- The part of a tick that comes once the target is known. -/
def approach (s : PlaybackState α) (target : Move α) (total : Nat) (pace : Pace α) :
    Except Fault (PlaybackState α) := do
  let length ← pace.stepLength target.kind
  if Scalar.lt (s.remaining target) length then return s.reach target total
  else
    let ratio ← Scalar.quotient length (s.remaining target)
    return { s with
      x := (Planar.lerp s.x s.y target.x target.y ratio).1
      y := (Planar.lerp s.x s.y target.x target.y ratio).2 }

theorem Consistent.step_eq (same : s.Consistent moves) (running : s.status = .running) :
    ∃ target, moves[s.index.toNat]? = some target ∧
      s.step moves pace = s.approach target moves.length pace := by
  obtain ⟨target, next, item⟩ := same.target running
  have remaining := same.unfinished (.inl running)
  refine ⟨target, next, ?_⟩
  rw [step, stepIn, advance, if_pos (isRunning_iff.mpr running), if_neg (by omega), item]
  unfold approach
  simp only [bind, Except.bind]
  cases pace.stepLength target.kind with
  | error fault => rfl
  | ok length =>
    simp only
    split
    · rfl
    · cases Scalar.quotient length (s.remaining target) <;> rfl

/-- A state that is not running stays as it is. -/
theorem step_resting (resting : ¬ s.status = .running) : s.step moves pace = .ok s := by
  rw [step, stepIn, advance, if_neg (mt isRunning_iff.mp resting)]
  rfl

/-- A tick without a fault reaches the target or moves the tool. -/
theorem approach_cases {target : Move α} {total : Nat}
    (moved : s.approach target total pace = .ok t) :
    t = s.reach target total ∨ ∃ x y, t = { s with x, y } := by
  unfold approach at moved
  cases length : pace.stepLength target.kind with
  | error fault => rw [length] at moved; cases moved
  | ok length' =>
    rw [length] at moved
    simp only [bind, Except.bind] at moved
    split at moved
    · cases moved
      exact .inl rfl
    · split at moved
      · cases moved
      · cases moved
        exact .inr ⟨_, _, rfl⟩

theorem step_consistent (same : s.Consistent moves) (stepped : s.step moves pace = .ok t) :
    t.Consistent moves := by
  by_cases running : s.status = .running
  · obtain ⟨target, next, eq⟩ := @Consistent.step_eq _ _ _ _ pace _ same running
    rw [eq] at stepped
    rcases approach_cases stepped with rfl | ⟨x, y, rfl⟩
    · exact reach_consistent same next
    · exact same.moved running x y
  · rw [step_resting running] at stepped
    cases stepped
    exact same

/-- A tick never goes back and completes one move at the most. -/
theorem step_index (same : s.Consistent moves) (stepped : s.step moves pace = .ok t) :
    t.index = s.index ∨ t.index = s.index + 1 := by
  by_cases running : s.status = .running
  · obtain ⟨target, next, eq⟩ := @Consistent.step_eq _ _ _ _ pace _ same running
    rw [eq] at stepped
    rcases approach_cases stepped with rfl | ⟨x, y, rfl⟩
    · exact .inr rfl
    · exact .inl rfl
  · rw [step_resting running] at stepped
    cases stepped
    exact .inl rfl

/-- Dividing by zero is the one fault of a tick: by the divisor, or by the distance to a target that
is no further away and still not within the step length. -/
theorem approach_error_iff {target : Move α} {total : Nat} {fault : Fault} :
    s.approach target total pace = .error fault ↔ fault = .divisionByZero ∧
      (Scalar.same pace.divisor Scalar.zero = true ∨
        ∃ length, pace.stepLength target.kind = .ok length ∧
          Scalar.same (s.remaining target) Scalar.zero = true ∧
          Scalar.lt (s.remaining target) length = false) := by
  have divided := @stepLength_error_iff _ _ pace target.kind
  unfold approach
  cases step : pace.stepLength target.kind with
  | error cause =>
    have zero := divided.mp step
    simp only [bind, Except.bind, Except.error.injEq, zero.1, zero.2, true_or, and_true, eq_comm]
  | ok length =>
    have nonzero : ¬ Scalar.same pace.divisor Scalar.zero = true := by
      intro zero
      rw [divided.mpr ⟨zero, rfl⟩] at step
      cases step
    simp only [bind, Except.bind, nonzero, Bool.false_eq_true, false_or, Except.ok.injEq,
      exists_eq_left']
    split
    · rename_i within
      simp [within, pure, Except.pure]
    · rename_i beyond
      rw [Bool.not_eq_true] at beyond
      cases ratio : Scalar.quotient length (s.remaining target) with
      | error cause =>
        have zero := quotient_error_iff.mp ratio
        simp only [Except.error.injEq, zero.1, zero.2, beyond, and_true, eq_comm]
      | ok ratio =>
        have apart : ¬ Scalar.same (s.remaining target) Scalar.zero = true := by
          intro zero
          rw [quotient_error_iff.mpr ⟨zero, rfl⟩] at ratio
          cases ratio
        simp [apart, pure, Except.pure]

end Toolpath.PlaybackState
