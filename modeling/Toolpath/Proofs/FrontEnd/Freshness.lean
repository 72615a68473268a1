import Mathlib
import Toolpath.Proofs.FrontEnd.Mirroring

/-! No run starts on stale text. Unless typed text waits, the text processed last is the editor's:
typing makes it wait, and only processing ends that. Starting a run first processes text that waits,
so what runs is what the editor holds then. -/
namespace Toolpath

namespace Engine
variable {α : Type} [Scalar α] {e : Engine α}

/-- Starting leaves a run of some moves running, whatever it was before. -/
theorem start_running (nonempty : e.moves ≠ []) : e.start.state.state.isRunning = true := by
  unfold start
  rw [if_neg (by simpa using nonempty)]
  split
  · rename_i paused
    rw [resume, if_pos paused]
    rfl
  · rfl

/-- A run that has not begun is started from its beginning. -/
theorem start_initial (nonempty : e.moves ≠ []) (initial : e.state = .initial) :
    e.start.state.state = { PlaybackState.initial with status := .running } := by
  unfold start
  rw [if_neg (by simpa using nonempty), if_neg (by rw [initial]; exact Bool.false_ne_true)]
  rfl

end Engine

namespace Controller
variable {α σ : Type} [Scalar α] [TickScheduler σ] {c : Controller α σ}

/-- Starting passes on to the engine, and answers whether the run is running then. -/
theorem start_engine (same : c.engine.state.Consistent c.engine.moves) :
    c.start.state.engine = c.engine.start.state ∧
      c.start.result = .ok c.engine.start.state.state.isRunning := by
  have answer := Engine.start_result same
  unfold start
  simp only [lift, Outcome.within, Outcome.andThen, cancelPending_engine, answer, Outcome.quiet,
    and_true]
  split <;> rfl

end Controller

namespace Window
variable {w d : Window}

/-- The program is the one that the text processed last reads as, and unless typed text waits, that
text is the editor's. -/
structure Fresh (w : Window) : Prop where
  program : w.session.program = Gcode.Program.parse w.session.text
  text : w.typing = false → w.session.text = w.editor.text

theorem notice_text (w : Window) (state : PlaybackState Float) :
    (w.notice state).editor.text = w.editor.text :=
  notice_keeps_editor Editor.text (fun _ _ _ _ _ => rfl) w state

theorem process_text (w : Window) : w.process.window.editor.text = w.editor.text :=
  notice_text _ _

theorem process_fresh (w : Window) : w.process.window.Fresh :=
  ⟨rfl, fun _ => (process_text w).symm⟩

theorem Turn.fresh (turn : Turn w d) (fresh : w.Fresh) : d.Fresh := by
  obtain ⟨program, text⟩ := fresh
  cases turn with
  | type typed => exact ⟨program, fun still => by cases still⟩
  | label => exact ⟨program, text⟩
  | process | finish => exact process_fresh _
  | @drive β o drives =>
    have session := w.follow_session (w.session.lift o)
    constructor
    · rw [session]
      exact program
    · intro still
      have typing := follow_keeps Window.typing (fun _ _ => rfl) (fun _ _ => rfl) w
        (w.session.lift o)
      have editor := follow_keeps (·.editor.text) notice_text (fun _ _ => rfl) w (w.session.lift o)
      rw [session]
      exact (text (typing.symm.trans still)).trans editor.symm

theorem Turns.fresh (turns : Turns w d) (fresh : w.Fresh) : d.Fresh :=
  turns.keeps Turn.fresh fresh

/-- After typing nothing waits; text that waited has begun a new run. -/
theorem finishTyping_settles (w : Window) :
    w.finishTyping.result = .ok () ∧ w.finishTyping.window.typing = false ∧
      w.finishTyping.window.editor.text = w.editor.text ∧
      (w.typing = true → w.finishTyping.window.engine.state = .initial) := by
  unfold finishTyping
  split
  · exact ⟨rfl, rfl, process_text _, fun _ => rfl⟩
  · rename_i still
    exact ⟨rfl, Bool.eq_false_of_not_eq_true still, rfl, fun waits => absurd waits still⟩

/-- Starting always comes to an end. What it does to the run is what starting a run does, once
nothing waits. -/
theorem start_settled
    (same : w.finishTyping.window.engine.state.Consistent w.finishTyping.window.engine.moves) :
    w.start.result = .ok () ∧ w.start.window.engine = w.finishTyping.window.engine.start.state ∧
      w.start.window.editor.text = w.editor.text := by
  obtain ⟨finished, _, kept, _⟩ := finishTyping_settles w
  obtain ⟨driven, answer⟩ := Controller.start_engine same
  have settled := WindowReply.andThen_ok finished fun d _ => d.follow d.session.start
  have started := WindowReply.andThen_ok (settled.2.trans answer) fun d started =>
    if started then .quiet d () else .said d "Nothing to simulate" ()
  have last (d : Window) (started : Bool) :
      let reply := if started then WindowReply.quiet d () else .said d "Nothing to simulate" ()
      reply.window = d ∧ reply.result = .ok () := by
    cases started <;> exact ⟨rfl, rfl⟩
  have window := started.1.trans ((last _ _).1.trans settled.1)
  refine ⟨started.2.trans (last _ _).2, ?_, ?_⟩
  · rw [engine, start, window, follow_session]
    exact driven
  · rw [start, window]
    exact (follow_keeps (·.editor.text) notice_text (fun _ _ => rfl) _ _).trans kept

/-- Whatever was typed, processed, opened, run or paused before, and in whatever order, a run that
is started goes over the moves of the editor's text, and is running if there are any. Text that
waited is run from its beginning. The text is what the editor says that it holds, with every toolkit. -/
theorem starts_fresh (kit : TextKit) (config : SimulatorConfig) (width height : Float)
    {settings : SessionSettings} (configured : config.session = .ok settings) (slots : List Slot) :
    ∃ opened, Window.newWith kit config width height = .ok opened ∧ opened.result = .ok () ∧
      let w := opened.window.performAll slots
      let d := w.start.window
      w.start.result = .ok () ∧ d.editor.text = w.editor.text ∧
        d.engine.moves = (Gcode.Program.parse d.editor.text).moves ∧
        (d.engine.moves ≠ [] → d.engine.state.isRunning = true ∧ (w.typing = true →
          d.engine.state = { PlaybackState.initial with status := .running })) := by
  obtain ⟨blank, opened, made, rfl, _⟩ := new_opens kit configured width height
  refine ⟨_, made, rfl, ?_⟩
  intro w d
  have agrees : (blank.setText Session.sample).window.Agrees := process_agrees _
  have turns : Turns (blank.setText Session.sample).window w.finishTyping.window :=
    (performAll_turns slots agrees.consistent).trans (finishTyping_turns w)
  obtain ⟨result, engine, text⟩ := start_settled (turns.agrees agrees).consistent
  obtain ⟨_, still, kept, waited⟩ := finishTyping_settles w
  have fresh := turns.fresh (process_fresh _)
  have moves : d.engine.moves = w.finishTyping.window.engine.moves := by
    rw [engine]
    exact (Engine.start_sound (turns.agrees agrees).consistent).moves
  have read : d.engine.moves = (Gcode.Program.parse d.editor.text).moves := by
    rw [moves, (turns.agrees agrees).loaded, fresh.program, fresh.text still, kept, text]
  refine ⟨result, text, read, fun nonempty => ?_⟩
  rw [moves] at nonempty
  rw [engine]
  exact ⟨Engine.start_running nonempty, fun waits => Engine.start_initial nonempty (waited waits)⟩

/-- Text typed while a run is paused: starting runs the new text and does not go on with the old. -/
theorem starts_fresh_paused :
    ∃ opened, Window.new SimulatorConfig.default 800 600 = .ok opened ∧
      let w := opened.window.performAll [.start, .togglePause, .type "G1 X10 F100".toList]
      w.start.result = .ok () ∧
        w.start.window.engine.moves = (Gcode.Program.parse "G1 X10 F100".toList).moves ∧
        w.start.window.engine.state = { PlaybackState.initial with status := .running } := by
  obtain ⟨opened, made, _, result, text, moves, runs⟩ :=
    starts_fresh .plain SimulatorConfig.default 800 600 rfl [.start, .togglePause,
      .type "G1 X10 F100".toList]
  have typed : (opened.window.performAll [.start, .togglePause,
      .type "G1 X10 F100".toList]).editor.text = "G1 X10 F100".toList := by
    have kit := performAll_kit rfl made [.start, .togglePause]
    change (Document.ofText (opened.window.performAll [.start, .togglePause]).editor.document.kit _).text = _
    rw [kit]
    exact Document.text_plain _
  rw [text, typed] at moves
  have nonempty : (Gcode.Program.parse "G1 X10 F100".toList).moves ≠ [] := by decide +kernel
  exact ⟨opened, made, result, moves, (runs (moves ▸ nonempty)).2 rfl⟩

end Window

end Toolpath
