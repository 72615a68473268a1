import Mathlib
import Toolpath.Proofs.Playback.Run

/-! What listeners are told of a run. An engine goes through turns, one at a time: it begins anew,
goes on, pauses or makes a tick, its pace changes, listeners come and go. A turn that puts it into a
state is told once to each registration of the time, in the order of registration, and nothing else
is told. Every operation comes to such turns or, if it is refused, to none. -/
namespace Toolpath
open PlaybackState

/-- A tick of a running state leaves it running or completes it. -/
theorem PlaybackState.step_status {α : Type} [Scalar α] [Metric α] {moves : List (Move α)}
    {pace : Pace α} {s t : PlaybackState α} (running : s.status = .running)
    (stepped : s.step moves pace = .ok t) : t.status = .running ∨ t.status = .complete := by
  unfold step stepIn at stepped
  cases advanced : s.advance moves pace with
  | error fault =>
    rw [advanced] at stepped
    cases stepped
  | ok advance =>
    rw [advanced] at stepped
    cases stepped
    cases advance with
    | rest => exact .inl running
    | finish => exact .inr rfl
    | arrive target =>
      by_cases last : (moves.length : Int) ≤ s.index + 1
      · exact .inr (if_pos last)
      · exact .inl (if_neg last)
    | travel x y => exact .inl running

namespace Engine
variable {α β γ : Type} [Scalar α] {e d f : Engine α}

/-! Turns. -/

inductive Turn (α : Type) where
  | load (moves : List (Move α))
  | reset
  | start
  | resume
  | pause
  | tick
  | setSpeed (speed : Int)
  | addListener (name : String)
  | removeListener (name : String)

namespace Turn

/-- Whether the turn puts the engine into a state. -/
def announces : Turn α → Bool
  | load _ | reset | start | resume | pause | tick => true
  | setSpeed _ | addListener _ | removeListener _ => false

/-- How a turn moves the status. -/
def Moves : Turn α → PlaybackStatus → PlaybackStatus → Prop
  | load _, _, after | reset, _, after => after = .idle
  | start, _, after => after = .running
  | resume, before, after => before = .paused ∧ after = .running
  | pause, before, after => before = .running ∧ after = .paused
  | tick, before, after => before = .running ∧ (after = .running ∨ after = .complete)
  | setSpeed _, before, after | addListener _, before, after | removeListener _, before, after =>
    after = before

end Turn

section
variable [Metric α]

/-- When an engine can take a turn, and what it is then. -/
inductive Takes (e : Engine α) : Turn α → Engine α → Prop where
  | load (moves : List (Move α)) : Takes e (.load moves) { e with moves, state := .initial }
  | reset : Takes e .reset { e with state := .initial }
  | start (filled : e.moves ≠ []) (unpaused : e.state.status ≠ .paused) :
      Takes e .start { e with state := { PlaybackState.initial with status := .running } }
  | resume (paused : e.state.status = .paused) :
      Takes e .resume { e with state := { e.state with status := .running } }
  | pause (running : e.state.status = .running) :
      Takes e .pause { e with state := { e.state with status := .paused } }
  | tick {state : PlaybackState α} (running : e.state.status = .running)
      (stepped : e.state.step e.moves e.pace = .ok state) : Takes e .tick { e with state }
  | setSpeed (speed : Int) : Takes e (.setSpeed speed) (e.setSpeed speed)
  | addListener (name : String) : Takes e (.addListener name) (e.addListener name)
  | removeListener (name : String) : Takes e (.removeListener name) (e.removeListener name)

theorem Takes.moves {turn : Turn α} (takes : Takes e turn d) :
    turn.Moves e.state.status d.state.status := by
  cases takes with
  | load _ | reset | start _ _ | setSpeed _ | addListener _ | removeListener _ => rfl
  | resume paused => exact ⟨paused, rfl⟩
  | pause running => exact ⟨running, rfl⟩
  | tick running stepped => exact ⟨running, step_status running stepped⟩

/-- Only registrations change who listens. -/
theorem Takes.listeners {turn : Turn α} (takes : Takes e turn d)
    (announces : turn.announces = true) : d.listeners = e.listeners := by
  cases takes with
  | load _ | reset | start _ _ | resume _ | pause _ | tick _ _ => rfl
  | setSpeed _ | addListener _ | removeListener _ => cases announces

/-- Turns one after the other, each with the engine after it. -/
inductive Trail : Engine α → List (Turn α × Engine α) → Engine α → Prop where
  | nil (e : Engine α) : Trail e [] e
  | cons {e d f : Engine α} {turn : Turn α} {rest : List (Turn α × Engine α)}
      (takes : Takes e turn d) (later : Trail d rest f) : Trail e ((turn, d) :: rest) f

variable {trail rest : List (Turn α × Engine α)}

theorem Trail.single {turn : Turn α} (takes : Takes e turn d) : Trail e [(turn, d)] d :=
  .cons takes (.nil d)

theorem Trail.append (first : Trail e trail d) (later : Trail d rest f) :
    Trail e (trail ++ rest) f := by
  induction first with
  | nil e => exact later
  | cons takes _ ih => exact .cons takes (ih later)

end

/-- What a trail has to tell: each state that it leads to, once for each registration, in the order
of registration. -/
def heard (trail : List (Turn α × Engine α)) : List (String × PlaybackState α) :=
  trail.flatMap fun (turn, e) =>
    if turn.announces then e.listeners.map fun name => (name, e.state) else []

/-! What the operations come to. -/

/-- What may be asked of an engine. -/
inductive Request (α : Type) where
  | perform (operation : Operation α)
  | addListener (name : String)
  | removeListener (name : String)

/-- The operations that change nothing in this state. -/
def Refuses (e : Engine α) : Operation α → Prop
  | .start => e.moves = []
  | .pause | .step => e.state.status ≠ .running
  | .resume => e.state.status ≠ .paused
  | .togglePause => e.state.status = .idle ∨ e.state.status = .complete
  | .runToCompletion _ => e.state.status ≠ .running ∧ e.moves = []
  | .load _ | .reset | .setSpeed _ => False

/-- Whether an operation that is not refused puts the engine into one state. -/
def Operation.isSingle : Operation α → Bool
  | .load _ | .reset | .start | .pause | .resume | .togglePause | .step => true
  | .setSpeed _ | .runToCompletion _ => false

/-- The turns that a request may come to, which it does one of at the most. -/
def Request.turns : Request α → List (Turn α)
  | .perform (.load moves) => [.load moves]
  | .perform .reset => [.reset]
  | .perform .start => [.start, .resume]
  | .perform .pause => [.pause]
  | .perform .resume => [.resume]
  | .perform .togglePause => [.pause, .resume]
  | .perform .step => [.tick]
  | .perform (.setSpeed speed) => [.setSpeed speed]
  | .perform (.runToCompletion _) => []
  | .addListener name => [.addListener name]
  | .removeListener name => [.removeListener name]

/-- The turns of a request in their order: one of its turns or none, and for a run to completion
some ticks, up to its limit, after the start if there is one. -/
def Request.Comprises : Request α → List (Turn α) → Prop
  | .perform (.runToCompletion maxSteps), turns => ∃ begun ticks, ticks ≤ maxSteps.toNat ∧
      (begun = [] ∨ begun = [.start] ∨ begun = [.resume]) ∧
      turns = begun ++ List.replicate ticks .tick
  | request, turns => turns = [] ∨ ∃ turn ∈ request.turns, turns = [turn]

/-- What an engine makes of a request. -/
def ask [Metric α] (e : Engine α) : Request α → Outcome α (Engine α) Unit
  | .perform operation => e.perform operation
  | .addListener name => .quiet (e.addListener name) ()
  | .removeListener name => .quiet (e.removeListener name) ()

/-- What becomes of a request that comes to one turn at the most. -/
inductive Answers [Metric α] (e : Engine α) (refused : Prop) (turns : List (Turn α))
    (o : Outcome α (Engine α) β) : Prop where
  | refuses (refusal : refused) (same : o.state = e) (silent : o.announced = [])
  | faults {fault : Fault} (accepted : ¬ refused) (raised : o.result = .error fault)
      (same : o.state = e) (silent : o.announced = [])
  | takes {turn : Turn α} (accepted : ¬ refused) (among : turn ∈ turns)
      (takes : Takes e turn o.state)
      (told : o.announced = if turn.announces then [o.state.state] else [])

section
variable [Metric α]

theorem Answers.map {refused : Prop} {turns : List (Turn α)} {o : Outcome α (Engine α) β}
    {g : β → γ} (answers : Answers e refused turns o) : Answers e refused turns (o.map g) := by
  cases answers with
  | refuses refusal same silent => exact .refuses refusal same silent
  | faults accepted raised same silent =>
    exact .faults accepted (by rw [Outcome.map, raised]; rfl) same silent
  | takes accepted among takes told => exact .takes accepted among takes told

theorem answers_resume : Answers e (e.state.status ≠ .paused) [.resume] e.resume := by
  unfold resume
  split
  · rename_i paused
    rw [isPaused_iff] at paused
    exact .takes (not_not_intro paused) List.mem_cons_self (.resume paused) rfl
  · rename_i unpaused
    exact .refuses (mt isPaused_iff.mpr unpaused) rfl rfl

theorem answers_pause : Answers e (e.state.status ≠ .running) [.pause] e.pause := by
  unfold pause
  split
  · rename_i running
    rw [isRunning_iff] at running
    exact .takes (not_not_intro running) List.mem_cons_self (.pause running) rfl
  · rename_i resting
    exact .refuses (mt isRunning_iff.mpr resting) rfl rfl

theorem answers_start : Answers e (e.moves = []) [.start, .resume] e.start := by
  unfold start
  split
  · rename_i empty
    exact .refuses (List.isEmpty_iff.mp empty) rfl rfl
  · rename_i filled
    rw [List.isEmpty_iff] at filled
    split
    · rename_i paused
      rw [resume, if_pos paused]
      exact .takes filled (by simp) (.resume (isPaused_iff.mp paused)) rfl
    · rename_i unpaused
      exact .takes filled (by simp) (.start filled (mt isPaused_iff.mpr unpaused)) rfl

theorem answers_togglePause : Answers e (e.state.status = .idle ∨ e.state.status = .complete)
    [.pause, .resume] e.togglePause := by
  have cases : (e.state.status = .idle ∨ e.state.status = .complete) ↔
      ¬ (e.state.status = .running ∨ e.state.status = .paused) := by
    cases e.state.status <;> decide
  rw [cases]
  unfold togglePause
  split
  · rename_i running
    rw [isRunning_iff] at running
    rw [pause, if_pos (isRunning_iff.mpr running)]
    exact .takes (not_not_intro (.inl running)) (by simp) (.pause running) rfl
  · rename_i resting
    rw [isRunning_iff] at resting
    cases answers_resume (e := e) with
    | refuses unpaused same silent =>
      exact .refuses (not_or.mpr ⟨resting, unpaused⟩) same silent
    | faults paused raised same silent =>
      exact .faults (not_not_intro (.inr (not_not.mp paused))) raised same silent
    | takes paused among takes told =>
      exact .takes (not_not_intro (.inr (not_not.mp paused))) (List.mem_cons_of_mem _ among) takes
        told

theorem answers_step : Answers e (e.state.status ≠ .running) [.tick] e.step := by
  unfold step
  split
  · rename_i running
    rw [isRunning_iff] at running
    split
    · rename_i state stepped
      exact .takes (not_not_intro running) List.mem_cons_self (.tick running stepped) rfl
    · exact .faults (not_not_intro running) rfl rfl rfl
  · rename_i resting
    exact .refuses (mt isRunning_iff.mpr resting) rfl rfl

theorem answers_perform {operation : Operation α}
    (brief : ∀ maxSteps, operation ≠ .runToCompletion maxSteps) :
    Answers e (e.Refuses operation) (Request.perform operation).turns (e.perform operation) := by
  cases operation with
  | load moves => exact .takes not_false List.mem_cons_self (.load moves) rfl
  | reset => exact .takes not_false List.mem_cons_self .reset rfl
  | start => exact answers_start.map
  | pause => exact answers_pause.map
  | resume => exact answers_resume.map
  | togglePause => exact answers_togglePause.map
  | step => exact answers_step
  | setSpeed speed => exact .takes not_false List.mem_cons_self (.setSpeed speed) rfl
  | runToCompletion maxSteps => exact absurd rfl (brief maxSteps)

/-! Runs to completion. -/

/-- A trail of states is told as it is. -/
theorem Trail.listeners {trail : List (Turn α × Engine α)} (path : Trail e trail d)
    (announced : ∀ entry ∈ trail, entry.1.announces = true) : d.listeners = e.listeners := by
  induction path with
  | nil e => rfl
  | cons takes _ ih =>
    obtain ⟨first, others⟩ := List.forall_mem_cons.mp announced
    exact (ih others).trans (takes.listeners first)

theorem Trail.deliveries {trail : List (Turn α × Engine α)} (path : Trail e trail d)
    (announced : ∀ entry ∈ trail, entry.1.announces = true) :
    d.deliveries (trail.map (·.2.state)) = heard trail := by
  induction path with
  | nil e => rfl
  | @cons e d f turn rest takes later ih =>
    obtain ⟨first, others⟩ := List.forall_mem_cons.mp announced
    have told : f.deliveries (rest.map (·.2.state)) = heard rest := ih others
    rw [List.map_cons, heard, List.flatMap_cons, ← heard, ← told, Engine.deliveries,
      List.flatMap_cons, ← Engine.deliveries, later.listeners others]
    simp only [first, if_true]

theorem runFrom_trail (fuel : Nat) (announced : List (PlaybackState α)) (log : List Log.Entry) :
    ∃ ticks, ticks ≤ fuel ∧ ∃ trail, Trail e trail (e.runFrom fuel announced log).state ∧
      trail.map (·.1) = List.replicate ticks .tick ∧
      (e.runFrom fuel announced log).announced = announced.reverse ++ trail.map (·.2.state) := by
  induction fuel generalizing e announced log with
  | zero => exact ⟨0, le_rfl, [], .nil e, rfl, (List.append_nil _).symm⟩
  | succ fuel ih =>
    rw [runFrom]
    split
    · rename_i running
      have answers := answers_step (e := e)
      generalize e.step = o at answers
      cases answers with
      | refuses refusal _ _ => exact absurd (isRunning_iff.mp running) refusal
      | faults _ raised same silent =>
        simp only [raised, silent, same]
        exact ⟨0, Nat.zero_le _, [], .nil e, rfl, by simp⟩
      | takes _ among takes told =>
        obtain rfl := List.mem_singleton.mp among
        simp only [told, Turn.announces, if_true]
        cases o.result with
        | error fault =>
          refine ⟨1, Nat.le_add_left _ _, _, .single takes, rfl, ?_⟩
          simp
        | ok answer =>
          obtain ⟨ticks, few, trail, path, made, states⟩ := ih (e := o.state) _ _
          refine ⟨ticks + 1, Nat.succ_le_succ few, _, .cons takes path, ?_, states.trans ?_⟩
          · rw [List.map_cons, made, List.replicate_succ]
          · simp
    · exact ⟨0, Nat.zero_le _, [], .nil e, rfl, (List.append_nil _).symm⟩

omit [Metric α] in
/-- Starting answers whether there are moves. -/
theorem start_accepted : e.start.result = .ok (!e.moves.isEmpty) := by
  unfold start
  split
  · rename_i empty
    rw [empty]
    rfl
  · rename_i filled
    rw [Bool.eq_false_of_not_eq_true filled]
    split
    · rename_i paused
      rw [resume, if_pos paused]
      rfl
    · rfl

theorem runToCompletion_refused (maxSteps : Int) (resting : e.state.status ≠ .running)
    (empty : e.moves = []) : (e.runToCompletion maxSteps).state = e ∧
      (e.runToCompletion maxSteps).announced = [] := by
  have accepted := start_accepted (e := e)
  have still : e.start.state = e ∧ e.start.announced = [] := by
    rw [start, if_pos (List.isEmpty_iff.mpr empty)]
    exact ⟨rfl, rfl⟩
  rw [empty] at accepted
  unfold runToCompletion
  simp only [isRunning, decide_eq_true_eq, if_neg resting, accepted]
  exact still

/-- What a run to completion takes on, if it was running or has been started. -/
theorem runToCompletion_runs (maxSteps : Int) {started : Outcome α (Engine α) Bool}
    (same : (if e.state.isRunning then .quiet e true else e.start) = started)
    (accepted : started.result = .ok true) :
    let ran := started.state.runFrom maxSteps.toNat started.announced.reverse started.log.reverse
    (e.runToCompletion maxSteps).state = ran.state ∧
      (e.runToCompletion maxSteps).announced = ran.announced := by
  unfold runToCompletion
  simp only [same, accepted]
  split
  · split <;> exact ⟨rfl, rfl⟩
  · exact ⟨rfl, rfl⟩

theorem runToCompletion_trail (e : Engine α) (maxSteps : Int) :
    ∃ trail, Trail e trail (e.runToCompletion maxSteps).state ∧
      (Request.perform (.runToCompletion maxSteps)).Comprises (trail.map (·.1)) ∧
      (e.runToCompletion maxSteps).announced = trail.map (·.2.state) := by
  have goesOn {started : Outcome α (Engine α) Bool} {begun : List (Turn α × Engine α)}
      (same : (if e.state.isRunning then .quiet e true else e.start) = started)
      (accepted : started.result = .ok true) (path : Trail e begun started.state)
      (turns : begun.map (·.1) = [] ∨ begun.map (·.1) = [.start] ∨ begun.map (·.1) = [.resume])
      (states : started.announced = begun.map (·.2.state)) :
      ∃ trail, Trail e trail (e.runToCompletion maxSteps).state ∧
        (Request.perform (.runToCompletion maxSteps)).Comprises (trail.map (·.1)) ∧
        (e.runToCompletion maxSteps).announced = trail.map (·.2.state) := by
    obtain ⟨state, announced⟩ := runToCompletion_runs maxSteps same accepted
    obtain ⟨ticks, few, rest, later, made, told⟩ := runFrom_trail (e := started.state)
      maxSteps.toNat started.announced.reverse started.log.reverse
    refine ⟨begun ++ rest, state ▸ path.append later, ⟨_, ticks, few, turns, ?_⟩, ?_⟩
    · rw [List.map_append, made]
    · rw [announced, told, List.reverse_reverse, states, List.map_append]
  by_cases running : e.state.isRunning = true
  · exact goesOn (if_pos running) rfl (.nil e) (.inl rfl) rfl
  · by_cases empty : e.moves = []
    · obtain ⟨state, announced⟩ := runToCompletion_refused maxSteps
        (mt isRunning_iff.mpr running) empty
      rw [state, announced]
      exact ⟨[], .nil e, ⟨[], 0, Nat.zero_le _, .inl rfl, rfl⟩, rfl⟩
    · have accepted := start_accepted (e := e)
      rw [List.isEmpty_eq_false_iff.mpr empty] at accepted
      have answers := answers_start (e := e)
      cases answers with
      | refuses refusal _ _ => exact absurd refusal empty
      | faults _ raised _ _ =>
        rw [raised] at accepted
        cases accepted
      | @takes turn _ among takes told =>
        have turns : turn = .start ∨ turn = .resume := by simpa using among
        refine goesOn (if_neg running) accepted (.single takes) (.inr ?_) ?_
        · simpa using turns
        · rcases turns with rfl | rfl <;> exact told

/-! What is told. -/

omit [Scalar α] [Metric α] in
/-- A run to completion has nothing but turns that put the engine into a state. -/
theorem comprises_announces {maxSteps : Int} {turns : List (Turn α)}
    (comprises : (Request.perform (.runToCompletion maxSteps)).Comprises turns) :
    ∀ turn ∈ turns, turn.announces = true := by
  obtain ⟨begun, ticks, _, first, rfl⟩ := comprises
  intro turn member
  rcases List.mem_append.mp member with before | tick
  · rcases first with rfl | rfl | rfl
    · cases before
    · rw [List.mem_singleton.mp before]
      rfl
    · rw [List.mem_singleton.mp before]
      rfl
  · rw [List.eq_of_mem_replicate tick]
    rfl

/-- Every request is a trail of turns, and it is told as it is. -/
theorem ask_follows (e : Engine α) (request : Request α) :
    ∃ trail, Trail e trail (e.ask request).state ∧ request.Comprises (trail.map (·.1)) ∧
      (e.ask request).state.deliveries (e.ask request).announced = heard trail := by
  have once {o : Outcome α (Engine α) Unit} {refused : Prop}
      (answers : Answers e refused request.turns o) :
      ∃ trail, Trail e trail o.state ∧ (trail.map (·.1) = [] ∨
        ∃ turn ∈ request.turns, trail.map (·.1) = [turn]) ∧
        o.state.deliveries o.announced = heard trail := by
    cases answers with
    | refuses _ same silent | faults _ _ same silent =>
      rw [same, silent]
      exact ⟨[], .nil e, .inl rfl, rfl⟩
    | @takes turn _ among takes told =>
      refine ⟨_, .single takes, .inr ⟨turn, among, rfl⟩, ?_⟩
      rw [told]
      cases announces : turn.announces <;> simp [deliveries, heard, announces]
  cases request with
  | perform operation =>
    cases operation with
    | runToCompletion maxSteps =>
      obtain ⟨trail, path, comprises, announced⟩ := runToCompletion_trail e maxSteps
      refine ⟨trail, path, comprises, ?_⟩
      change (e.runToCompletion maxSteps).state.deliveries
        (e.runToCompletion maxSteps).announced = _
      rw [announced]
      exact path.deliveries fun entry member =>
        comprises_announces comprises _ (List.mem_map_of_mem member)
    | _ => exact once (answers_perform nofun)
  | addListener name => exact once (.takes not_false List.mem_cons_self (.addListener name) rfl)
  | removeListener name =>
    exact once (.takes not_false List.mem_cons_self (.removeListener name) rfl)

end

/-- An engine with all that its listeners have been told, the first first. -/
structure Watched (α : Type) where
  engine : Engine α
  told : List (String × PlaybackState α)

namespace Watched
variable [Metric α] {w : Watched α}

def ask (w : Watched α) (request : Request α) : Watched α where
  engine := (w.engine.ask request).state
  told := w.told ++ (w.engine.ask request).state.deliveries (w.engine.ask request).announced

def askAll (w : Watched α) (requests : List (Request α)) : Watched α := requests.foldl ask w

/-- All that has been told is what the engine went through. -/
theorem askAll_follows (w : Watched α) (requests : List (Request α)) :
    ∃ trail, Trail w.engine trail (w.askAll requests).engine ∧
      (w.askAll requests).told = w.told ++ heard trail := by
  induction requests generalizing w with
  | nil => exact ⟨[], .nil _, (List.append_nil _).symm⟩
  | cons request rest ih =>
    obtain ⟨first, path, _, told⟩ := ask_follows w.engine request
    obtain ⟨later, further, others⟩ := ih (w.ask request)
    refine ⟨first ++ later, path.append further, others.trans ?_⟩
    rw [ask, told, List.append_assoc, heard, heard, heard, List.flatMap_append]

theorem ask_refused {operation : Operation α} (refused : w.engine.Refuses operation) :
    w.ask (.perform operation) = w := by
  have still : (w.engine.perform operation).state = w.engine ∧
      (w.engine.perform operation).announced = [] := by
    by_cases brief : ∀ maxSteps, operation ≠ .runToCompletion maxSteps
    · cases answers_perform (e := w.engine) brief with
      | refuses _ same silent => exact ⟨same, silent⟩
      | faults accepted _ _ _ => exact absurd refused accepted
      | takes accepted _ _ _ => exact absurd refused accepted
    · push Not at brief
      obtain ⟨maxSteps, rfl⟩ := brief
      exact runToCompletion_refused _ refused.1 refused.2
  have asked : w.engine.ask (.perform operation) = w.engine.perform operation := rfl
  obtain ⟨engine, told⟩ := w
  rw [ask, asked, still.1, still.2]
  simp [deliveries]

/-- An operation that is neither refused nor ends with a fault is told once to each registration,
with the state that it leads to. -/
theorem ask_accepted {operation : Operation α} (single : operation.isSingle = true)
    (accepted : ¬ w.engine.Refuses operation)
    (sound : (w.engine.perform operation).result = .ok ()) :
    (w.ask (.perform operation)).told = w.told ++
      w.engine.listeners.map fun name => (name, (w.ask (.perform operation)).engine.state) := by
  have brief : ∀ maxSteps, operation ≠ .runToCompletion maxSteps := by
    rintro maxSteps rfl
    cases single
  have announces : ∀ turn ∈ (Request.perform operation).turns, turn.announces = true := by
    cases operation with
    | setSpeed speed | runToCompletion maxSteps => cases single
    | _ => simp [Request.turns, Turn.announces]
  have asked : w.engine.ask (.perform operation) = w.engine.perform operation := rfl
  cases answers_perform (e := w.engine) brief with
  | refuses refusal _ _ => exact absurd refusal accepted
  | faults _ raised _ _ =>
    rw [raised] at sound
    cases sound
  | @takes turn _ among takes told =>
    have here := announces turn among
    rw [here, if_pos rfl] at told
    simp only [ask, asked, told, deliveries, List.flatMap_singleton, takes.listeners here]

/-- Whatever is asked of an engine and in whatever order, its listeners are told each state that it
goes through, once for each registration of the time and in the order of registration. What is
refused changes nothing and is not told. Only beginning anew leaves an idle or complete state. -/
theorem listeners_follow (moves : List (Move α)) (speed : Int) (divisor rapidFactor : α)
    (requests : List (Request α)) :
    let e := Engine.new moves speed divisor rapidFactor
    let w := askAll ⟨e, []⟩ requests
    (∃ trail, Trail e trail w.engine ∧ w.told = heard trail) ∧
      (∀ request, ∃ trail, Trail w.engine trail (w.ask request).engine ∧
        request.Comprises (trail.map (·.1)) ∧ (w.ask request).told = w.told ++ heard trail) ∧
      (∀ operation, w.engine.Refuses operation → w.ask (.perform operation) = w) ∧
      (∀ operation, operation.isSingle = true → ¬ w.engine.Refuses operation →
        (w.engine.perform operation).result = .ok () →
        (w.ask (.perform operation)).told = w.told ++ w.engine.listeners.map fun name =>
          (name, (w.ask (.perform operation)).engine.state)) ∧
      ∀ (d : Engine α) turn f, Takes d turn f → turn.Moves d.state.status f.state.status := by
  intro e w
  refine ⟨askAll_follows ⟨e, []⟩ requests, ?_, fun _ => ask_refused, fun _ => ask_accepted,
    fun _ _ _ => Takes.moves⟩
  intro request
  obtain ⟨trail, path, comprises, told⟩ := ask_follows w.engine request
  exact ⟨trail, path, comprises, congrArg (w.told ++ ·) told⟩

end Watched

end Engine

end Toolpath
