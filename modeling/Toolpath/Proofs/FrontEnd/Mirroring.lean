import Mathlib
import Toolpath.Proofs.FrontEnd.Slots
import Toolpath.Proofs.Numeric.Bounds

/-! What a window shows is what its run and its program are. Some of it is pushed by the run, which
announces its states, and some is pulled when a text is processed; the run of a new program is
announced before the program is shown. -/
namespace Toolpath

theorem PlaybackState.Consistent.progress {s : PlaybackState Float} {moves : List (Move Float)}
    (same : s.Consistent moves) : ∃ fraction u, s.progress moves.length = .ok fraction ∧
      Binary64.ofFloat fraction = .finite false u ∧ u ≤ oneUnits := by
  unfold PlaybackState.progress
  split
  · exact ⟨Scalar.zero, 0, rfl, Binary64.ofFloat_ofCode false (by decide), Nat.zero_le _⟩
  · rename_i some
    obtain ⟨part, count⟩ := Int.eq_ofNat_of_zero_le same.nonnegative
    have bounded := same.bounded
    rw [count] at bounded ⊢
    exact Binary64.ratio_eq (by omega) (by omega)

theorem LineSet.mem_ofList (lines : List Int) (line : Int) :
    line ∈ (LineSet.ofList lines).lines ↔ line ∈ lines := by
  simp [LineSet.ofList, List.mem_mergeSort]

namespace Window
variable {w d : Window} {state : PlaybackState Float}

/-- The part of a window that follows the run. -/
structure Shows (w : Window) (state : PlaybackState Float) : Prop where
  run : w.run = .ofState state w.engine.moves.length
  executionLine : w.editor.executionLine = state.line
  playback : w.viewport.playback = state

theorem notice_shows (w : Window) (state : PlaybackState Float) : (w.notice state).Shows state where
  run := rfl
  executionLine := by
    obtain ⟨anchor, cursor, markers, eq⟩ := w.editor.setExecutionLine_eq state.line
    exact congrArg Editor.executionLine eq
  playback := rfl

theorem notice_errorLines (w : Window) (state : PlaybackState Float) :
    (w.notice state).editor.errorLines = w.editor.errorLines :=
  notice_keeps_editor Editor.errorLines (fun _ _ _ _ _ => rfl) w state

/-- After any announcements the last of them is what is shown. -/
theorem Shows.notices (shows : w.Shows state) (announced : List (PlaybackState Float)) :
    (announced.foldl notice w).Shows (announced.getLast?.getD state) := by
  induction announced using List.reverseRecOn with
  | nil => exact shows
  | append_singleton earlier last _ =>
    rw [List.foldl_append, List.getLast?_concat]
    exact notice_shows _ last

/-- What is shown agrees with the run and the program, and these with each other. -/
structure Agrees (w : Window) : Prop where
  shows : w.Shows w.engine.state
  consistent : w.engine.state.Consistent w.engine.moves
  loaded : w.engine.moves = w.session.program.moves
  moves : w.viewport.moves = w.session.program.moves
  box : w.viewport.box = w.session.program.envelope
  errorLines : w.editor.errorLines = .ofList (w.session.program.diagnostics.map (·.line))

/-- Whatever was shown before, a text that is processed is shown. -/
theorem process_agrees (w : Window) : w.process.window.Agrees where
  shows :=
    have shows :=
      notice_shows { w with session := (w.session.process w.editor.text).state } .initial
    ⟨shows.run, shows.executionLine, shows.playback⟩
  consistent := PlaybackState.initial_consistent _
  loaded := rfl
  moves := rfl
  box := rfl
  errorLines := rfl

theorem Turn.agrees (turn : Turn w d) (agrees : w.Agrees) : d.Agrees := by
  obtain ⟨⟨run, executionLine, playback⟩, consistent, loaded, moves, box, errorLines⟩ := agrees
  cases turn with
  | type | label =>
    exact ⟨⟨run, executionLine, playback⟩, consistent, loaded, moves, box, errorLines⟩
  | process | finish => exact process_agrees _
  | @drive β o drives =>
    obtain ⟨continues, told⟩ := drives
    have session := w.follow_session (w.session.lift o)
    have before : ({ w with session := (w.session.lift o).state } : Window).Shows w.engine.state :=
      ⟨run.trans (congrArg (RunDisplay.ofState _) (congrArg List.length continues.moves.symm)),
        executionLine, playback⟩
    have after := before.notices o.announced
    rw [told] at after
    constructor
    · rw [engine, session]
      exact after
    · rw [engine, session]
      exact continues.same
    · rw [engine, session]
      exact continues.moves.trans loaded
    · rw [session]
      exact (follow_keeps (·.viewport.moves) (fun _ _ => rfl) (fun _ _ => rfl) w _).trans moves
    · rw [session]
      exact (follow_keeps (·.viewport.box) (fun _ _ => rfl) (fun _ _ => rfl) w _).trans box
    · rw [session]
      exact (follow_keeps (·.editor.errorLines) notice_errorLines (fun _ _ => rfl) w _).trans
        errorLines

theorem Turns.agrees (turns : Turns w d) (agrees : w.Agrees) : d.Agrees :=
  turns.keeps Turn.agrees agrees

/-- A window can be made with whatever a session can be made with, and shows a text from the
start. -/
theorem new_opens (kit : TextKit) {config : SimulatorConfig} {settings : SessionSettings}
    (configured : config.session = .ok settings) (width height : Float) :
    ∃ (blank : Window) (opened : WindowReply Unit), Window.newWith kit config width height = .ok opened ∧
      opened = blank.setText Session.sample ∧ blank.editor.document.kit = kit := by
  unfold Window.newWith
  rw [configured]
  exact ⟨_, _, rfl, rfl, rfl⟩

/-- A window that is made stays with its toolkit. -/
theorem performAll_kit {kit : TextKit} {config : SimulatorConfig} {settings : SessionSettings}
    (configured : config.session = .ok settings) {width height : Float} {opened : WindowReply Unit}
    (made : Window.newWith kit config width height = .ok opened) (slots : List Slot) :
    (opened.window.performAll slots).editor.document.kit = kit := by
  obtain ⟨blank, _, made', rfl, same⟩ := new_opens kit configured width height
  obtain rfl := Except.ok.inj (made'.symm.trans made)
  have agrees : (blank.setText Session.sample).window.Agrees := process_agrees _
  have turns := performAll_turns slots agrees.consistent
  refine turns.keeps (P := (·.editor.document.kit = kit)) (fun turn kept => turn.kit.trans kept) ?_
  exact (congrArg Document.kit (process_document _)).trans same

/-- What the toolbar, the editor and the picture show of the run and of the program. -/
structure Mirrors (w : Window) : Prop where
  status : w.run.status = w.engine.state.status.label
  canPause : w.run.canPause = true ↔
    w.engine.state.status = .running ∨ w.engine.state.status = .paused
  pauseText : w.run.pauseText = if w.engine.state.status = .paused then "Resume" else "Pause"
  progress : ∃ fraction, w.engine.progress = .ok fraction ∧
    Binary64.nearestWhole (fraction * 100) = .ok w.run.progress
  percentage : 0 ≤ w.run.progress ∧ w.run.progress ≤ 100
  executionLine : w.editor.executionLine = w.engine.state.line
  playback : w.viewport.playback = w.engine.state
  loaded : w.engine.moves = w.session.program.moves
  moves : w.viewport.moves = w.session.program.moves
  box : w.viewport.box = w.session.program.envelope
  errorLines : ∀ line, line ∈ w.editor.errorLines.lines ↔
    ∃ report ∈ w.session.program.diagnostics, report.line = line

theorem Agrees.mirrors (agrees : w.Agrees) : w.Mirrors := by
  obtain ⟨⟨run, executionLine, playback⟩, consistent, loaded, moves, box, errorLines⟩ := agrees
  obtain ⟨fraction, u, progress, units, le⟩ := consistent.progress
  obtain ⟨percent, whole, least, greatest⟩ := Binary64.percentage units le
  have shown : w.run.progress = percent := by
    rw [run, RunDisplay.ofState, progress]
    simp only [Except.bind, whole]
    rfl
  constructor
  · rw [run]
    rfl
  · rw [run]
    simp [RunDisplay.ofState, PlaybackState.isRunning, PlaybackState.isPaused]
  · rw [run]
    simp [RunDisplay.ofState, PlaybackState.isPaused]
  · rw [shown]
    exact ⟨fraction, progress, whole⟩
  · rw [shown]
    exact ⟨least, greatest⟩
  · exact executionLine
  · exact playback
  · exact loaded
  · exact moves
  · exact box
  · intro line
    rw [errorLines, LineSet.mem_ofList, List.mem_map]

/-- A window that is made shows the run and the program as they are, and after slots in any order,
ticks included, it shows them as they are then. It does so with every toolkit. -/
theorem stays_mirrored (kit : TextKit) (config : SimulatorConfig) (width height : Float)
    {settings : SessionSettings} (configured : config.session = .ok settings) (slots : List Slot) :
    ∃ opened, Window.newWith kit config width height = .ok opened ∧ opened.result = .ok () ∧
      opened.window.Mirrors ∧ (opened.window.performAll slots).Mirrors := by
  obtain ⟨blank, opened, made, rfl, _⟩ := new_opens kit configured width height
  have agrees : (blank.setText Session.sample).window.Agrees := process_agrees _
  have turns := performAll_turns slots agrees.consistent
  exact ⟨_, made, rfl, agrees.mirrors, (turns.agrees agrees).mirrors⟩

/-- The default configuration makes a window; here it runs, ticks once and is paused. -/
theorem stays_mirrored_default :
    ∃ opened, Window.new SimulatorConfig.default 800 600 = .ok opened ∧ opened.result = .ok () ∧
      opened.window.Mirrors ∧ (opened.window.performAll [.start, .tick 0, .togglePause]).Mirrors :=
  stays_mirrored .plain SimulatorConfig.default 800 600 rfl [.start, .tick 0, .togglePause]

end Window

end Toolpath
