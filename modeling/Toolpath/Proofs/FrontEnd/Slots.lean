import Mathlib
import Toolpath.FrontEnd.Window
import Toolpath.Proofs.Text.Utf8
import Toolpath.Proofs.Tick.Driving

/-! What the slots of a window do. Every slot comes to a few turns: text is typed, text is
processed, the run is driven, labels change. A slot that ends with a fault comes to the turns before
it, so what every turn keeps is kept by slots in any order. -/
namespace Toolpath

namespace Engine
variable {α : Type} [Scalar α]

/-- What an operation on a run leaves is what was announced last; if nothing was, it is what there
was before. -/
def Told (e : Engine α) (announced : List (PlaybackState α)) (after : Engine α) : Prop :=
  announced.getLast?.getD e.state = after.state

omit [Scalar α] in
theorem resume_told (e : Engine α) : e.Told e.resume.announced e.resume.state := by
  unfold resume
  split_ifs <;> rfl

omit [Scalar α] in
theorem pause_told (e : Engine α) : e.Told e.pause.announced e.pause.state := by
  unfold pause
  split_ifs <;> rfl

theorem start_told (e : Engine α) : e.Told e.start.announced e.start.state := by
  unfold start
  split_ifs
  · rfl
  · exact e.resume_told
  · rfl

theorem step_told [Metric α] (e : Engine α) : e.Told e.step.announced e.step.state := by
  unfold step
  split
  · split <;> rfl
  · rfl

end Engine

namespace Controller
open Engine (Sound Told)
variable {α σ β γ : Type} [Scalar α] {e : Engine α} {c : Controller α σ}

/-- An operation that goes on with a run over its moves and announces what it does. -/
structure Drives (e : Engine α) (o : Outcome α (Controller α σ) β) : Prop where
  continues : e.Continues o.state.engine
  told : e.Told o.announced o.state.engine

/-- Going on with the controller alone announces nothing. -/
theorem Drives.andThen_quiet {o : Outcome α (Controller α σ) β} (drives : Drives e o)
    {next : Controller α σ → β → Controller α σ} {answer : Controller α σ → β → γ}
    (engine : ∀ d b, (next d b).engine = d.engine) :
    Drives e (o.andThen fun d b => .quiet (next d b) (answer d b)) := by
  obtain ⟨continues, told⟩ := drives
  obtain ⟨state, announced, log, result⟩ := o
  cases result with
  | error fault => exact ⟨continues, told⟩
  | ok b =>
    simp only [Outcome.andThen, Outcome.quiet, List.append_nil]
    constructor <;> rw [engine]
    · exact continues
    · exact told

variable [TickScheduler σ]

/-- Most operations cancel the pending tick and pass on to the engine. -/
theorem passOn_drives (operate : Engine α → Outcome α (Engine α) β)
    (sound : Sound c.engine (operate c.engine))
    (told : c.engine.Told (operate c.engine).announced (operate c.engine).state) :
    Drives c.engine (c.cancelPending.lift (operate c.cancelPending.engine)) := by
  rw [cancelPending_engine]
  exact ⟨sound.continues, told⟩

theorem reset_drives : Drives c.engine c.reset := passOn_drives Engine.reset Engine.reset_sound rfl

variable (same : c.engine.state.Consistent c.engine.moves)
include same

theorem start_drives : Drives c.engine c.start := by
  have passed := passOn_drives Engine.start (Engine.start_sound same) c.engine.start_told
  unfold start
  refine passed.andThen_quiet ?_
  intro d started
  cases started <;> rfl

theorem pause_drives : Drives c.engine c.pause :=
  passOn_drives Engine.pause (Engine.pause_sound same) c.engine.pause_told

theorem resume_drives : Drives c.engine c.resume := by
  have resumed : Drives c.engine (c.lift c.engine.resume) :=
    ⟨(Engine.resume_sound same).continues, c.engine.resume_told⟩
  refine resumed.andThen_quiet ?_
  intro d going
  cases going
  · rfl
  · exact cancelPending_engine

theorem togglePause_drives : Drives c.engine c.togglePause := by
  unfold togglePause
  split
  · exact pause_drives same
  · exact resume_drives same

variable [Metric α]

theorem fire_drives (token : Nat) : Drives c.engine (c.fire token) := by
  refine ⟨fire_continues token same, ?_⟩
  by_cases current : token = c.generation
  · subst current
    by_cases running : c.engine.state.isRunning = true
    · rw [(fire_running_engine running).1, (fire_running running).2.1]
      exact c.engine.step_told
    · unfold fire fireWith
      simp only [ne_eq, not_true, if_false, running, Bool.false_eq_true]
      rfl
  · obtain ⟨state, announced, _⟩ := fire_stale current
    rw [state, announced]
    rfl

end Controller

/-- A tick may be held or not when its time comes. -/
theorem Controller.expire_drives {α : Type} [Scalar α] [Metric α]
    {c : Controller α (TimerScheduler Nat)} (same : c.engine.state.Consistent c.engine.moves)
    (handle : Nat) : Drives c.engine (c.expire handle) := by
  unfold expire
  rcases c.scheduler.expire handle with ⟨scheduler, _ | generation⟩
  · exact ⟨⟨rfl, same⟩, rfl⟩
  · exact @fire_drives _ _ _ { c with scheduler } _ same _ generation

theorem WindowReply.andThen_ok {β γ : Type} {r : WindowReply β} {b : β} (ok : r.result = .ok b)
    (next : Window → β → WindowReply γ) : (r.andThen next).window = (next r.window b).window ∧
      (r.andThen next).result = (next r.window b).result := by
  unfold andThen
  rw [ok]
  exact ⟨rfl, rfl⟩

/-- Marking a line may move the cursor there, and changes nothing else but the markers. -/
theorem Editor.setExecutionLine_eq (e : Editor) (line : Int) : ∃ anchor cursor markers,
    (e.setExecutionLine line).1 = { e with executionLine := line, anchor, cursor, markers } := by
  unfold setExecutionLine
  split
  · rename_i same
    rw [same]
    exact ⟨_, _, _, rfl⟩
  · dsimp only
    split
    · exact ⟨_, _, _, rfl⟩
    · split <;> exact ⟨_, _, _, rfl⟩

section
variable {store : FileStore} {path : List Char} {fault : Fault}

theorem FileStore.follow_fault {passed parts : List (List Char)}
    (lost : store.follow path passed parts = .error fault) : fault.systemText?.isSome = true := by
  induction parts generalizing passed with
  | nil => cases lost
  | cons part rest ih =>
    unfold follow at lost
    dsimp only at lost
    split_ifs at lost
    · cases lost
      rfl
    · exact ih lost
    · cases lost
      rfl
    · cases lost
      rfl

/-- A file that cannot be read is a trouble that the system has words for. -/
theorem FileStore.read?_fault (usable : path.contains '\x00' = false) (lost : store.read? path = .error fault) :
    fault.systemText?.isSome = true := by
  unfold read? locateFile locate at lost
  rw [usable] at lost
  cases followed : store.follow path [] (Path.parts path) with
  | error other =>
    rw [followed] at lost
    cases lost
    exact follow_fault followed
  | ok passed =>
    rw [followed] at lost
    simp only [bind, Except.bind, Except.map, Bool.false_eq_true, if_false] at lost
    split at lost
    · rename_i error
      split at error
      · cases error
        cases lost
        rfl
      · cases error
    · split at lost
      · cases lost
      · cases lost
        rfl

/-- Where a text cannot be read, there is something to say about it. -/
theorem exists_troubleText (usable : path.contains '\x00' = false) (lost : store.readText? path = .error fault) :
    ∃ cause, troubleText? store path fault = some cause := by
  unfold FileStore.readText? at lost
  cases read : store.read? path with
  | error other =>
    rw [read] at lost
    cases lost
    have said := FileStore.read?_fault usable read
    cases fault <;> first | exact ⟨_, rfl⟩ | cases said
  | ok bytes =>
    rw [read] at lost
    simp only [bind, Except.bind] at lost
    cases decoded : Text.decode? bytes with
    | some text =>
      rw [decoded] at lost
      cases lost
    | none =>
      rw [decoded] at lost
      cases lost
      obtain ⟨fault, first⟩ := Option.ne_none_iff_exists'.mp
        fun none => (Text.firstFault?_eq_none_iff bytes).mp none decoded
      refine ⟨fault.text bytes, ?_⟩
      rw [troubleText?, read]
      simp only [Except.toOption, bind, Option.bind, first]
      rfl

end

namespace Window
variable {β γ : Type} {w d : Window}

/-- What changes a window at once. -/
inductive Turn (w : Window) : Window → Prop where
  | type (text : List Char) : Turn w (w.type text)
  | process : Turn w w.process.window
  | finish : Turn w ({ w with typing := false } : Window).process.window
  | drive {β : Type} {o : Outcome Float (Controller Float (TimerScheduler Nat)) β}
      (drives : Controller.Drives w.engine o) : Turn w (w.follow (w.session.lift o)).window
  | label (filename : List Char) (speedText : String) (drawingDiagnostics : List Diagnostic) :
      Turn w { w with filename, speedText, session := { w.session with drawingDiagnostics } }

/-- Some turns, one after the other. -/
abbrev Turns : Window → Window → Prop := Relation.ReflTransGen Turn

theorem Turns.andThen {r : WindowReply β} {next : Window → β → WindowReply γ}
    (first : Turns w r.window) (further : ∀ b, Turns r.window (next r.window b).window) :
    Turns w (r.andThen next).window := by
  unfold WindowReply.andThen
  split
  · exact first
  · exact first.trans (further _)

/-- What a user or a clock does to a window. -/
inductive Slot where
  | start
  | togglePause
  | resetPlayback
  | setSpeed (speed : Int)
  | setText (text : List Char)
  | process
  | type (text : List Char)
  | finishTyping
  | openProgram (store : FileStore) (path : List Char)
  | openDrawing (store : FileStore) (path : List Char)
  | openPath (store : FileStore) (path : List Char)
  | tick (handle : Nat)

/-- The window after a slot, which may have ended with a fault. -/
def perform (w : Window) : Slot → Window
  | .start => w.start.window
  | .togglePause => w.togglePause.window
  | .resetPlayback => w.resetPlayback.window
  | .setSpeed speed => w.setSpeed speed
  | .setText text => (w.setText text).window
  | .process => w.process.window
  | .type text => w.type text
  | .finishTyping => w.finishTyping.window
  | .openProgram store path => (w.openProgram store path).window
  | .openDrawing store path => (w.openDrawing store path).window
  | .openPath store path => (w.openPath store path).window
  | .tick handle => (w.fireTimers [handle]).window

def performAll (w : Window) (slots : List Slot) : Window := slots.foldl perform w

theorem Turns.setText (w : Window) (text : List Char) : Turns w (w.setText text).window :=
  .tail (.single (.type text)) .finish

theorem fileTrouble_window (w : Window) (store : FileStore) (action : String) (path place : List Char)
    (fault : Fault) : (w.fileTrouble store action path place fault).window = w := by
  unfold fileTrouble
  split <;> rfl

/-- Opening a program comes to an end, with a message if there is no text to read. -/
theorem openProgram_result (w : Window) (store : FileStore) {path : List Char}
    (usable : path.contains '\x00' = false) : (w.openProgram store path).result = .ok () := by
  unfold openProgram
  split
  · rename_i lost
    obtain ⟨cause, told⟩ := exists_troubleText usable lost
    rw [fileTrouble, told]
  · rfl

theorem openProgram_turns (w : Window) (store : FileStore) (path : List Char) :
    Turns w (w.openProgram store path).window := by
  unfold openProgram
  split
  · rw [fileTrouble_window]
  · refine .andThen ?_ fun _ => .refl
    have named := Turn.label (w := w) (Path.name path) w.speedText w.session.drawingDiagnostics
    exact .head named (Turns.setText _ _)

theorem openDrawing_turns (w : Window) (store : FileStore) (path : List Char) :
    Turns w (w.openDrawing store path).window := by
  unfold openDrawing
  split
  · rw [fileTrouble_window]
  · rename_i text _
    refine .andThen (.single ?_) fun program => ?_
    · exact .label w.filename w.speedText (Drawing.readDxf text).diagnostics
    · refine .andThen (.andThen (.single ?_) fun _ => .setText _ program) fun _ => .refl
      exact .label _ _ _

theorem setSpeed_turns (speed : Int) (same : w.engine.state.Consistent w.engine.moves) :
    Turns w (w.setSpeed speed) := by
  have driven : Controller.Drives w.engine
      (.quiet (w.session.controller.setSpeed speed) () : Outcome Float _ Unit) := ⟨⟨rfl, same⟩, rfl⟩
  refine .tail (.single (.drive driven)) ?_
  exact .label w.filename (percentText (w.session.setSpeed speed).engine.speed)
    w.session.drawingDiagnostics

theorem finishTyping_turns (w : Window) : Turns w w.finishTyping.window := by
  unfold finishTyping
  split
  · exact .single .finish
  · exact .refl

/-- What noticing a state leaves alone, noticing many does. -/
theorem notices_keep {δ : Type} (f : Window → δ) (kept : ∀ d state, f (d.notice state) = f d)
    (announced : List (PlaybackState Float)) (w : Window) :
    f (announced.foldl notice w) = f w := by
  induction announced generalizing w with
  | nil => rfl
  | cons state rest ih => exact (ih (w.notice state)).trans (kept w state)

/-- Of the editor, noticing a state changes the marks and the cursor. -/
theorem notice_keeps_editor {δ : Type} (f : Editor → δ) (apart : ∀ e executionLine anchor cursor markers,
      f { e with executionLine, anchor, cursor, markers } = f e) (w : Window)
    (state : PlaybackState Float) : f (w.notice state).editor = f w.editor := by
  obtain ⟨anchor, cursor, markers, eq⟩ := w.editor.setExecutionLine_eq state.line
  change f (w.editor.setExecutionLine state.line).1 = _
  rw [eq]
  exact apart w.editor state.line anchor cursor markers

theorem follow_session (w : Window) (o : Outcome Float TimerSession β) :
    (w.follow o).window.session = o.state :=
  notices_keep session (fun _ _ => rfl) o.announced { w with session := o.state }

/-- What neither a state nor another session changes, following an operation leaves alone. -/
theorem follow_keeps {δ : Type} (f : Window → δ) (kept : ∀ d state, f (d.notice state) = f d)
    (aside : ∀ d session, f { d with session } = f d) (w : Window)
    (o : Outcome Float TimerSession β) : f (w.follow o).window = f w :=
  (notices_keep f kept o.announced { w with session := o.state }).trans (aside w o.state)

theorem notice_document (w : Window) (state : PlaybackState Float) :
    (w.notice state).editor.document = w.editor.document :=
  notice_keeps_editor Editor.document (fun _ _ _ _ _ => rfl) w state

theorem follow_document (w : Window) (o : Outcome Float TimerSession β) :
    (w.follow o).window.editor.document = w.editor.document :=
  follow_keeps (·.editor.document) notice_document (fun _ _ => rfl) w o

theorem process_document (w : Window) : w.process.window.editor.document = w.editor.document :=
  notice_document _ _

/-- Text is only ever set in the toolkit that a window was made with. -/
theorem Turn.kit (turn : Turn w d) : d.editor.document.kit = w.editor.document.kit := by
  cases turn with
  | type | label => rfl
  | process | finish => exact congrArg Document.kit (process_document _)
  | drive => exact congrArg Document.kit (follow_document w _)

theorem Turns.keeps {P : Window → Prop} (turn : ∀ {w d}, Turn w d → P w → P d) (turns : Turns w d)
    (holds : P w) : P d := by
  induction turns with
  | refl => exact holds
  | tail _ last ih => exact turn last ih

/-- Whatever turns come, the run stays consistent with its moves. -/
theorem Turn.consistent (turn : Turn w d) (same : w.engine.state.Consistent w.engine.moves) :
    d.engine.state.Consistent d.engine.moves := by
  cases turn with
  | type | label => exact same
  | process | finish => exact PlaybackState.initial_consistent _
  | drive drives =>
    rw [engine, follow_session]
    exact drives.continues.same

theorem Turns.consistent (turns : Turns w d) (same : w.engine.state.Consistent w.engine.moves) :
    d.engine.state.Consistent d.engine.moves :=
  turns.keeps (P := fun w => w.engine.state.Consistent w.engine.moves) Turn.consistent same

theorem start_turns (same : w.engine.state.Consistent w.engine.moves) :
    Turns w w.start.window := by
  have finished := finishTyping_turns w
  refine .andThen (.andThen finished fun _ => ?_) fun started => ?_
  · exact .single (.drive (Controller.start_drives (finished.consistent same)))
  · cases started <;> exact .refl

/-- Every slot is made of turns. -/
theorem perform_turns (slot : Slot) (same : w.engine.state.Consistent w.engine.moves) :
    Turns w (w.perform slot) := by
  cases slot with
  | start => exact start_turns same
  | togglePause => exact .single (.drive (Controller.togglePause_drives same))
  | resetPlayback => exact .single (.drive Controller.reset_drives)
  | setSpeed speed => exact setSpeed_turns speed same
  | setText text => exact .setText w text
  | process => exact .single .process
  | type text => exact .single (.type text)
  | finishTyping => exact finishTyping_turns w
  | openProgram store path => exact openProgram_turns w store path
  | openDrawing store path => exact openDrawing_turns w store path
  | openPath store path =>
    change Turns w (w.openPath store path).window
    unfold openPath
    split
    · exact openDrawing_turns w store path
    · exact openProgram_turns w store path
  | tick handle =>
    exact .andThen (.single (.drive (Controller.expire_drives same handle))) fun _ => .refl

theorem performAll_turns (slots : List Slot) (same : w.engine.state.Consistent w.engine.moves) :
    Turns w (w.performAll slots) := by
  induction slots generalizing w with
  | nil => exact .refl
  | cons slot rest ih =>
    have turns := perform_turns slot same
    exact turns.trans (ih (turns.consistent same))

end Window

end Toolpath
