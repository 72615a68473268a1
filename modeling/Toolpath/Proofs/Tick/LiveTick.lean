import Mathlib
import Toolpath.Proofs.Tick.Driving

/-! At most one tick is live. A tick is live if it has not fired and carries the current generation;
there is one exactly while the run is running. Cancelling begins a generation that no tick carries
yet, which leaves nothing live, whatever the scheduler does with the cancelled tick; only then may
the next one be scheduled. -/
namespace Toolpath.Controller
variable {α σ : Type} {c : Controller α (Recorded σ)} {fired : List Nat} {place token : Nat}

/-- The places of the ticks that have not fired and carry the current generation. -/
def liveTicks (c : Controller α (Recorded σ)) (fired : List Nat) : List Nat :=
  (List.range c.scheduler.tokens.length).filter fun place =>
    decide (place ∉ fired) && c.scheduler.tokens[place]? == some c.generation

theorem mem_liveTicks :
    place ∈ c.liveTicks fired ↔ place ∉ fired ∧ c.scheduler.tokens[place]? = some c.generation := by
  simp only [liveTicks, List.mem_filter, List.mem_range, Bool.and_eq_true, decide_eq_true_eq,
    beq_iff_eq]
  refine and_iff_right_of_imp fun h => ?_
  exact (List.getElem?_eq_some_iff.mp h.2).1

/-- Nothing is live and nothing is pending; what was scheduled before is of this generation or an
earlier one. -/
structure Settled (c : Controller α (Recorded σ)) (fired : List Nat) : Prop where
  old : ∀ token ∈ c.scheduler.tokens, token ≤ c.generation
  past : ∀ place ∈ fired, place < c.scheduler.tokens.length
  live : c.liveTicks fired = []
  pending : c.pending = none

/-- The live ticks, the pending handle and the status of the run say the same. -/
structure Accounted (c : Controller α (Recorded σ)) (fired : List Nat) : Prop where
  old : ∀ token ∈ c.scheduler.tokens, token ≤ c.generation
  past : ∀ place ∈ fired, place < c.scheduler.tokens.length
  live : (c.liveTicks fired).length = if c.engine.state.isRunning then 1 else 0
  pending : c.hasPending = c.engine.state.isRunning

theorem Settled.withEngine (settled : c.Settled fired) (engine : Engine α) :
    ({ c with engine } : Controller α (Recorded σ)).Settled fired :=
  ⟨settled.old, settled.past, settled.live, settled.pending⟩

theorem Settled.accounted (settled : c.Settled fired) (resting : c.engine.state.isRunning = false) :
    c.Accounted fired where
  old := settled.old
  past := settled.past
  live := by rw [settled.live, resting]; rfl
  pending := by rw [hasPending, settled.pending, resting]; rfl

theorem new_accounted (engine : Engine α) (scheduler : σ)
    (resting : engine.state.isRunning = false) :
    (Controller.new engine (⟨scheduler, []⟩ : Recorded σ)).Accounted [] :=
  Settled.accounted ⟨by simp [Controller.new], by simp, rfl, rfl⟩ resting

theorem Accounted.running (accounted : c.Accounted fired) (member : place ∈ c.liveTicks fired) :
    c.engine.state.isRunning = true := by
  have count := accounted.live
  by_contra resting
  rw [if_neg resting] at count
  exact (List.length_pos_of_mem member).ne' count

/-- Firing the one live tick leaves nothing live. -/
theorem liveTicks_fired (single : (c.liveTicks fired).length ≤ 1)
    (member : place ∈ c.liveTicks fired) : c.liveTicks (place :: fired) = [] := by
  have alone : c.liveTicks fired = [place] := by
    obtain ⟨only, eq⟩ :=
      List.length_eq_one_iff.mp (le_antisymm single (List.length_pos_of_mem member))
    rw [eq, List.mem_singleton] at member
    rw [eq, member]
  apply List.eq_nil_iff_forall_not_mem.mpr
  intro p h
  obtain ⟨unfired, carried⟩ := mem_liveTicks.mp h
  have again : p ∈ c.liveTicks fired :=
    mem_liveTicks.mpr ⟨fun h => unfired (List.mem_cons_of_mem _ h), carried⟩
  rw [alone, List.mem_singleton] at again
  exact unfired (again ▸ List.mem_cons_self)

/-- Firing a tick of an earlier generation leaves the live ones as they are. -/
theorem liveTicks_fired_stale (scheduled : c.scheduler.tokens[place]? = some token)
    (stale : token ≠ c.generation) : c.liveTicks (place :: fired) = c.liveTicks fired := by
  apply List.filter_congr
  intro p _
  by_cases same : p = place
  · subst same
    simp [scheduled, stale]
  · simp [same]

theorem past_fired (past : ∀ place ∈ fired, place < c.scheduler.tokens.length)
    (scheduled : c.scheduler.tokens[place]? = some token) :
    ∀ p ∈ place :: fired, p < c.scheduler.tokens.length :=
  List.forall_mem_cons.mpr ⟨(List.getElem?_eq_some_iff.mp scheduled).1, past⟩

theorem Accounted.settled_of_fired (accounted : c.Accounted fired)
    (member : place ∈ c.liveTicks fired) :
    ({ c with pending := none } : Controller α (Recorded σ)).Settled (place :: fired) where
  old := accounted.old
  past := past_fired accounted.past (mem_liveTicks.mp member).2
  live := by
    have single : (c.liveTicks fired).length ≤ 1 := by
      rw [accounted.live]
      split <;> omega
    exact liveTicks_fired single member
  pending := rfl

theorem Accounted.fired_stale (accounted : c.Accounted fired)
    (scheduled : c.scheduler.tokens[place]? = some token) (stale : token ≠ c.generation) :
    c.Accounted (place :: fired) where
  old := accounted.old
  past := past_fired accounted.past scheduled
  live := by rw [liveTicks_fired_stale scheduled stale, accounted.live]
  pending := accounted.pending

/-- The account is of the record, not of what the scheduler keeps. -/
theorem Accounted.shift (accounted : c.Accounted fired) (scheduler : σ) :
    ({ c with scheduler := { c.scheduler with scheduler } } : Controller α (Recorded σ)).Accounted
      fired :=
  ⟨accounted.old, accounted.past, accounted.live, accounted.pending⟩

variable [TickScheduler σ]

theorem cancelPending_tokens : c.cancelPending.scheduler.tokens = c.scheduler.tokens := by
  unfold cancelPending
  split <;> rfl

/-- Cancelling begins a generation that no tick carries yet. -/
theorem cancelPending_stale (old : ∀ token ∈ c.scheduler.tokens, token ≤ c.generation) :
    ∀ token ∈ c.cancelPending.scheduler.tokens, token < c.cancelPending.generation := by
  have generation : c.cancelPending.generation = c.generation + 1 := by
    unfold cancelPending
    split <;> rfl
  intro token member
  rw [cancelPending_tokens] at member
  have := old token member
  omega

theorem cancelPending_settled (old : ∀ token ∈ c.scheduler.tokens, token ≤ c.generation)
    (past : ∀ place ∈ fired, place < c.scheduler.tokens.length) :
    c.cancelPending.Settled fired := by
  have stale := cancelPending_stale old
  refine ⟨fun token member => (stale token member).le, ?_, ?_, cancelPending_pending⟩
  · rw [cancelPending_tokens]
    exact past
  · apply List.eq_nil_iff_forall_not_mem.mpr
    intro place member
    exact lt_irrefl _ (stale _ (List.mem_of_getElem? (mem_liveTicks.mp member).2))

theorem Accounted.cancelPending (accounted : c.Accounted fired) : c.cancelPending.Settled fired :=
  cancelPending_settled accounted.old accounted.past

/-- A tick that is scheduled is live. -/
theorem length_liveTicks_scheduleNext
    (past : ∀ place ∈ fired, place < c.scheduler.tokens.length) :
    (c.scheduleNext.liveTicks fired).length = (c.liveTicks fired).length + 1 := by
  have unfired : c.scheduler.tokens.length ∉ fired := fun h => lt_irrefl _ (past _ h)
  have before : (List.range c.scheduler.tokens.length).filter (fun place =>
      decide (place ∉ fired) &&
        (c.scheduler.tokens ++ [c.generation])[place]? == some c.generation) =
      c.liveTicks fired := by
    apply List.filter_congr
    intro place member
    rw [List.getElem?_append_left (List.mem_range.mp member)]
  change ((List.range (c.scheduler.tokens ++ [c.generation]).length).filter fun place =>
    decide (place ∉ fired) &&
      (c.scheduler.tokens ++ [c.generation])[place]? == some c.generation).length = _
  rw [List.length_append, List.length_singleton, List.range_succ, List.filter_append, before]
  simp [unfired]

theorem scheduleNext_old (old : ∀ token ∈ c.scheduler.tokens, token ≤ c.generation) :
    ∀ token ∈ c.scheduleNext.scheduler.tokens, token ≤ c.scheduleNext.generation := by
  intro token member
  rcases List.mem_append.mp member with before | new
  · exact old token before
  · exact (List.mem_singleton.mp new).le

theorem scheduleNext_past (past : ∀ place ∈ fired, place < c.scheduler.tokens.length) :
    ∀ place ∈ fired, place < c.scheduleNext.scheduler.tokens.length := by
  intro place member
  have := past place member
  change place < (c.scheduler.tokens ++ [c.generation]).length
  simp only [List.length_append, List.length_singleton]
  omega

/-- Scheduling where nothing is live makes one tick live. -/
theorem Settled.scheduleNext (settled : c.Settled fired)
    (running : c.engine.state.isRunning = true) :
    c.scheduleNext.Accounted fired where
  old := scheduleNext_old settled.old
  past := scheduleNext_past settled.past
  live := by
    change _ = if c.engine.state.isRunning then 1 else 0
    rw [length_liveTicks_scheduleNext settled.past, settled.live, if_pos running]
    rfl
  pending := running.symm

variable [Scalar α]

/-- Asking anything of a controller keeps the account. -/
theorem perform_accounted (action : Action α) (same : c.engine.state.Consistent c.engine.moves)
    (accounted : c.Accounted fired) : (c.perform action).state.Accounted fired := by
  have settled := accounted.cancelPending
  cases perform_effect action same with
  | settles engine eq resting =>
    rw [eq]
    exact (settled.withEngine engine).accounted resting
  | schedules engine eq running =>
    rw [eq]
    exact (settled.withEngine engine).scheduleNext running
  | ignores engine eq unchanged =>
    rw [eq]
    exact ⟨accounted.old, accounted.past, accounted.live.trans (by rw [unchanged]),
      accounted.pending.trans unchanged.symm⟩

variable [Metric α]

/-- A tick of the current generation passes on one engine step, and the next tick is scheduled if
the run goes on. -/
theorem fire_current (running : c.engine.state.isRunning = true)
    (ticked : c.engine.step.result = .ok ()) :
    (c.fire c.generation).state =
        (let d : Controller α (Recorded σ) :=
           { c with engine := c.engine.step.state, pending := none }
         if d.engine.state.isRunning then d.scheduleNext else d) ∧
      (c.fire c.generation).announced = c.engine.step.announced ∧
      (c.fire c.generation).result = .ok () := by
  have fired := fire_running running
  rwa [ticked] at fired

/-- The controllers that calls and firings lead to in any order, with the places of the ticks that
have fired. A tick fires once at most, and whether it was cancelled does not matter. In between the
scheduler may do to itself what it likes, such as taking a tick off its queue. -/
inductive Reached (first : Controller α (Recorded σ)) :
    Controller α (Recorded σ) → List Nat → Prop where
  | new : Reached first first []
  | call {c : Controller α (Recorded σ)} {fired : List Nat} (action : Action α) :
      Reached first c fired → Reached first (c.perform action).state fired
  | fire {c : Controller α (Recorded σ)} {fired : List Nat} {place token : Nat} :
      Reached first c fired → c.scheduler.tokens[place]? = some token → place ∉ fired →
      Reached first (c.fire token).state (place :: fired)
  | shift {c : Controller α (Recorded σ)} {fired : List Nat} (scheduler : σ) :
      Reached first c fired →
      Reached first { c with scheduler := { c.scheduler with scheduler } } fired

/-- Every step length that the pace of a run may come to is positive: none of them is rounded to
zero. -/
def StepsForward (divisor rapidFactor : Float) : Prop :=
  ∀ percentage, Engine.minSpeed ≤ percentage → percentage ≤ Engine.maxSpeed → ∀ kind, ∃ length,
    (⟨Scalar.ofInt percentage, divisor, rapidFactor⟩ : Pace Float).stepLength kind = .ok length ∧
      Scalar.zero < length

def leadsForward (pace : Pace Float) (kind : MoveKind) : Bool :=
  match pace.stepLength kind with
  | .ok length => decide (Scalar.zero < length)
  | .error _ => false

theorem stepsForward_iff (divisor rapidFactor : Float) :
    StepsForward divisor rapidFactor ↔ ∀ n : Fin 100, ∀ kind ∈ [MoveKind.rapid, .linear],
      leadsForward ⟨Scalar.ofInt (n + 1), divisor, rapidFactor⟩ kind = true := by
  have reads (pace : Pace Float) (kind : MoveKind) : leadsForward pace kind = true ↔
      ∃ length, pace.stepLength kind = .ok length ∧ Scalar.zero < length := by
    unfold leadsForward
    cases pace.stepLength kind <;> simp
  simp only [reads]
  constructor
  · intro forward n kind _
    exact forward (n + 1) (by unfold Engine.minSpeed; omega) (by unfold Engine.maxSpeed; omega) kind
  · intro checked percentage least greatest kind
    unfold Engine.minSpeed at least
    unfold Engine.maxSpeed at greatest
    have found := checked ⟨(percentage - 1).toNat, by omega⟩ kind (by cases kind <;> simp)
    have same : ((⟨(percentage - 1).toNat, by omega⟩ : Fin 100) : Int) + 1 = percentage := by
      simp only
      omega
    rwa [same] at found

instance (divisor rapidFactor : Float) : Decidable (StepsForward divisor rapidFactor) :=
  decidable_of_iff' _ (stepsForward_iff divisor rapidFactor)

section Forward
variable {c : Controller Float (Recorded σ)} {e : Engine Float} {divisor rapidFactor : Float}

/-- An engine made with a pace that leads forward, after any operations. -/
def Steady (divisor rapidFactor : Float) (e : Engine Float) : Prop :=
  ∃ moves speed operations, e = (Engine.new moves speed divisor rapidFactor).performAll operations

theorem Steady.consistent (steady : Steady divisor rapidFactor e) : e.state.Consistent e.moves := by
  obtain ⟨moves, speed, operations, rfl⟩ := steady
  exact Engine.performAll_consistent Engine.new_consistent

theorem Steady.perform (steady : Steady divisor rapidFactor e)
    (operation : Engine.Operation Float) :
    Steady divisor rapidFactor (e.perform operation).state := by
  obtain ⟨moves, speed, operations, rfl⟩ := steady
  exact ⟨moves, speed, operations ++ [operation], (Engine.performAll_concat _ _).symm⟩

theorem Steady.step_ok (steady : Steady divisor rapidFactor e)
    (forward : StepsForward divisor rapidFactor) :
    e.step.result = .ok () := by
  cases result : e.step.result with
  | ok _ => rfl
  | error fault =>
    obtain ⟨_, target, _, raised⟩ := (Engine.step_fault_iff steady.consistent).mp result
    obtain ⟨moves, speed, operations, rfl⟩ := steady
    obtain ⟨percentage, least, greatest, pace⟩ :=
      @Engine.performAll_pace _ _ _ moves speed divisor rapidFactor operations
    obtain ⟨length, stepped, positive⟩ := forward percentage least greatest target.kind
    rw [pace, PlaybackState.approach_error_iff] at raised
    rcases raised.2 with zero | ⟨length', stepped', zero, beyond⟩
    · rw [PlaybackState.stepLength_error_iff.mpr ⟨zero, rfl⟩] at stepped
      cases stepped
    · rw [stepped, Except.ok.injEq] at stepped'
      subst stepped'
      exact absurd ((Binary64.lt_of_beq_zero zero length).mpr positive) (of_decide_eq_false beyond)

theorem fire_accounted (steady : Steady divisor rapidFactor c.engine)
    (forward : StepsForward divisor rapidFactor) (accounted : c.Accounted fired)
    (scheduled : c.scheduler.tokens[place]? = some token) (unfired : place ∉ fired) :
    (c.fire token).state.Accounted (place :: fired) ∧
      Steady divisor rapidFactor (c.fire token).state.engine := by
  by_cases current : token = c.generation
  · subst current
    have member : place ∈ c.liveTicks fired := mem_liveTicks.mpr ⟨unfired, scheduled⟩
    have running := accounted.running member
    rw [(fire_current running (steady.step_ok forward)).1]
    have settled := (accounted.settled_of_fired member).withEngine c.engine.step.state
    simp only
    split
    · rename_i stillRunning
      exact ⟨settled.scheduleNext stillRunning, steady.perform .step⟩
    · rename_i resting
      exact ⟨settled.accounted (by simpa using resting), steady.perform .step⟩
  · rw [(fire_stale current).1]
    exact ⟨accounted.fired_stale scheduled current, steady⟩

theorem Reached.accounted {first : Controller Float (Recorded σ)}
    (steady : Steady divisor rapidFactor first.engine) (forward : StepsForward divisor rapidFactor)
    (begun : first.Accounted []) (reached : Reached first c fired) :
    c.Accounted fired ∧ Steady divisor rapidFactor c.engine := by
  induction reached with
  | new => exact ⟨begun, steady⟩
  | call action _ ih =>
    refine ⟨perform_accounted action ih.2.consistent ih.1, ?_⟩
    rw [perform_engine]
    exact ih.2.perform _
  | fire _ scheduled unfired ih => exact fire_accounted ih.2 forward ih.1 scheduled unfired
  | shift scheduler _ ih => exact ⟨ih.1.shift scheduler, ih.2⟩

/-- After any calls and firings exactly one tick is live if the run is running and none otherwise,
and the controller says so. Firing the live tick is one engine step; firing any other changes
nothing. The engine may have had any run before, as long as it is not running when the controller
takes it. -/
theorem single_live_tick (scheduler : σ) (moves : List (Move Float)) (speed : Int)
    (divisor rapidFactor : Float) (operations : List (Engine.Operation Float))
    (forward : StepsForward divisor rapidFactor)
    (resting :
      ((Engine.new moves speed divisor rapidFactor).performAll operations).state.isRunning = false)
    (reached : Reached
      (Controller.new ((Engine.new moves speed divisor rapidFactor).performAll operations)
      (⟨scheduler, []⟩ : Recorded σ)) c fired) :
    (c.liveTicks fired).length = (if c.engine.state.isRunning then 1 else 0) ∧
      c.hasPending = c.engine.state.isRunning ∧
      ∀ place token, c.scheduler.tokens[place]? = some token → place ∉ fired →
        if place ∈ c.liveTicks fired then
          (c.fire token).state.engine = c.engine.step.state ∧
            (c.fire token).announced = c.engine.step.announced ∧
            (c.fire token).result = .ok ()
        else
          (c.fire token).state = c ∧ (c.fire token).announced = [] ∧
            (c.fire token).result = .ok () := by
  obtain ⟨accounted, steady⟩ :=
    Reached.accounted ⟨moves, speed, operations, rfl⟩ forward
      (new_accounted _ scheduler resting) reached
  refine ⟨accounted.live, accounted.pending, ?_⟩
  intro place token scheduled unfired
  split
  · rename_i member
    have running := accounted.running member
    have current : token = c.generation := by
      have carried := (mem_liveTicks.mp member).2
      rw [scheduled] at carried
      exact Option.some.inj carried
    subst current
    obtain ⟨state, announced, result⟩ := fire_current running (steady.step_ok forward)
    refine ⟨?_, announced, result⟩
    rw [state]
    simp only
    split <;> rfl
  · rename_i notLive
    apply fire_stale
    rintro rfl
    exact notLive (mem_liveTicks.mpr ⟨unfired, scheduled⟩)

theorem single_live_tick_started :
    let first : Controller Float (Recorded KeepingScheduler) :=
      .new (.new [⟨.linear, 1, 0, 100, 1⟩] 50 25 3) ⟨.empty, []⟩
    StepsForward 25 3 ∧ first.engine.state.isRunning = false ∧
      Reached first (first.perform .start).state [] ∧
      ((first.perform .start).state.liveTicks []).length = 1 := by
  intro first
  have forward : StepsForward 25 3 := by decide +kernel
  have reached : Reached first (first.perform .start).state [] := .call .start .new
  exact ⟨forward, rfl, reached,
    (single_live_tick KeepingScheduler.empty [⟨.linear, 1, 0, 100, 1⟩] 50 25 3 [] forward rfl
      reached).1⟩

/-- A positive factor may make the length of a rapid step vanish. A move to where the tool stands
then divides zero by zero, and the run is left running with no tick to drive it; so is one that the
controller found running. -/
theorem live_tick_lost :
    let vanishing := Binary64.ofCode false 1
    let stalled : Controller Float (Recorded KeepingScheduler) :=
      .new (.new [⟨.rapid, 0, 0, 0, 1⟩] 1 25 vanishing) ⟨.empty, []⟩
    let found : Controller Float (Recorded KeepingScheduler) :=
      .new (Engine.new [⟨.linear, 1, 0, 100, 1⟩] 50 25 3).start.state ⟨.empty, []⟩
    (Scalar.zero < (25 : Float) ∧ Scalar.zero < vanishing) ∧
      (∃ c fired, Reached stalled c fired ∧ c.engine.state.isRunning = true ∧ c.hasPending = false ∧
        c.liveTicks fired = []) ∧
      ∃ c, Reached found c [] ∧ c.engine.state.isRunning = true ∧ c.hasPending = false := by
  intro vanishing stalled found
  refine ⟨by decide, ⟨((stalled.perform .start).state.fire 1).state, [0], ?_, ?_⟩, found,
    .new, rfl, rfl⟩
  · exact .fire (.call .start .new) rfl (by simp)
  · have checked : (let c := ((stalled.perform .start).state.fire 1).state
        c.engine.state.isRunning && !c.hasPending && (c.liveTicks [0]).isEmpty) = true := by
      decide +kernel
    simpa [and_assoc] using checked

end Forward

end Toolpath.Controller
