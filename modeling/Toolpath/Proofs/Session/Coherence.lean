import Mathlib
import Toolpath.Proofs.Session.Fitting
import Toolpath.Proofs.Tick.Driving

/-! What a session answers belongs together. The program is the one that the text processed last
reads as, the run goes over its moves, and the reports on drawings are those of the drawing converted
last. Whatever loads a program or goes back to the beginning leaves the run unmoved and no tick
pending; a drawing that cannot be compiled loads nothing, and the run goes on. -/
namespace Toolpath.Session
open Gcode Drawing
variable {σ : Type} {s : Session σ} {drawing : Option (List Char)}

/-- The reports on the drawing converted last. -/
def reportsOn : Option (List Char) → List Diagnostic
  | some text => (readDxf text).diagnostics
  | none => []

/-- The drawing converted last since the last reset. -/
def lastDrawing (drawing : Option (List Char)) : Operation σ → Option (List Char)
  | .convertDrawing text | .processDrawing text => some text
  | .reset => none
  | .process _ | .setDisplaySize _ _ | .start | .pause | .togglePause | .resetPlayback | .setSpeed _
  | .tick _ | .shift _ => drawing

/-- All that a session holds is of the text processed last and of the drawing converted last. -/
structure Coherent (s : Session σ) (drawing : Option (List Char)) : Prop where
  moves : s.program.moves = (Program.parse s.text).moves
  envelope : s.program.envelope = (Program.parse s.text).envelope
  diagnostics : s.program.diagnostics = (Program.parse s.text).diagnostics
  loaded : s.engine.moves = s.program.moves
  run : s.engine.state.Consistent s.engine.moves
  drawingDiagnostics : s.drawingDiagnostics = reportsOn drawing

theorem parse_nil : Program.parse [] = { Program.empty with totalLines := 1 } := by
  have silent : Diagnostic.sorted [] = [] := List.mergeSort_nil
  calc Program.parse []
      = { Program.empty with totalLines := 1, diagnostics := Diagnostic.sorted [] } := rfl
    _ = { Program.empty with totalLines := 1 } := by rw [silent]; rfl

/-- A session without a text, whose run is over no moves. -/
theorem coherent_of_empty (text : s.text = []) (program : s.program = .empty)
    (loaded : s.engine.moves = []) (run : s.engine.state = .initial)
    (silent : s.drawingDiagnostics = []) : s.Coherent none where
  moves := by rw [program, text, parse_nil]
  envelope := by rw [program, text, parse_nil]
  diagnostics := by rw [program, text, parse_nil]
  loaded := by rw [loaded, program]; rfl
  run := by rw [run]; exact PlaybackState.initial_consistent _
  drawingDiagnostics := silent

theorem new_coherent (settings : SessionSettings) (scheduler : σ) :
    (Session.new settings scheduler).Coherent none :=
  coherent_of_empty rfl rfl rfl rfl rfl

/-- A run that goes on over its moves keeps a session coherent. -/
theorem Coherent.drive {controller : Controller Float σ} (coherent : s.Coherent drawing)
    (continues : s.engine.Continues controller.engine) :
    ({ s with controller } : Session σ).Coherent drawing where
  moves := coherent.moves
  envelope := coherent.envelope
  diagnostics := coherent.diagnostics
  loaded := continues.moves.trans coherent.loaded
  run := continues.same
  drawingDiagnostics := coherent.drawingDiagnostics

theorem Coherent.convertDrawing (coherent : s.Coherent drawing) (text : List Char) :
    (s.convertDrawing text).state.Coherent (some text) where
  moves := coherent.moves
  envelope := coherent.envelope
  diagnostics := coherent.diagnostics
  loaded := coherent.loaded
  run := coherent.run
  drawingDiagnostics := rfl

theorem Coherent.setDisplaySize (coherent : s.Coherent drawing) (width height : Option Float) :
    (s.setDisplaySize width height).Coherent drawing where
  moves := coherent.moves
  envelope := coherent.envelope
  diagnostics := coherent.diagnostics
  loaded := coherent.loaded
  run := coherent.run
  drawingDiagnostics := coherent.drawingDiagnostics

variable [TickScheduler σ]

theorem Coherent.process (coherent : s.Coherent drawing) (text : List Char) :
    (s.process text).state.Coherent drawing where
  moves := rfl
  envelope := rfl
  diagnostics := rfl
  loaded := rfl
  run := PlaybackState.initial_consistent _
  drawingDiagnostics := coherent.drawingDiagnostics

theorem reset_coherent (s : Session σ) : s.reset.state.Coherent none :=
  coherent_of_empty rfl rfl rfl rfl rfl

theorem Coherent.act (coherent : s.Coherent drawing) (action : Controller.Action Float)
    (kept : action.loads = false) :
    ({ s with controller := (s.controller.perform action).state } : Session σ).Coherent drawing :=
  coherent.drive (Controller.perform_continues coherent.run kept)

theorem processDrawing_failed {text : List Char} {fault : Fault}
    (failed : (s.convertDrawing text).result = .error fault) :
    (s.processDrawing text).state = { s with drawingDiagnostics := (readDxf text).diagnostics } ∧
      (s.processDrawing text).result = .error fault := by
  unfold processDrawing Outcome.andThen
  rw [failed]
  exact ⟨rfl, rfl⟩

theorem processDrawing_compiled {text program : List Char}
    (compiled : (s.convertDrawing text).result = .ok program) :
    (s.processDrawing text).state = ((s.convertDrawing text).state.process program).state ∧
      (s.processDrawing text).result = .ok () := by
  unfold processDrawing Outcome.andThen
  rw [compiled]
  exact ⟨rfl, rfl⟩

theorem Coherent.perform (coherent : s.Coherent drawing) (operation : Operation σ) :
    (s.perform operation).state.Coherent (lastDrawing drawing operation) := by
  cases operation with
  | process text => exact coherent.process text
  | processDrawing text =>
    have converted := coherent.convertDrawing text
    change (s.processDrawing text).state.Coherent (some text)
    cases compiled : (s.convertDrawing text).result with
    | error fault =>
      rw [(processDrawing_failed compiled).1]
      exact converted
    | ok program =>
      rw [(processDrawing_compiled compiled).1]
      exact converted.process program
  | convertDrawing text => exact coherent.convertDrawing text
  | setDisplaySize width height => exact coherent.setDisplaySize width height
  | start => exact coherent.act .start rfl
  | pause => exact coherent.act .pause rfl
  | togglePause => exact coherent.act .togglePause rfl
  | resetPlayback => exact coherent.act .reset rfl
  | setSpeed speed => exact coherent.act (.setSpeed speed) rfl
  | tick token => exact coherent.drive (Controller.fire_continues token coherent.run)
  | shift scheduler => exact coherent.drive ⟨rfl, coherent.run⟩
  | reset => exact reset_coherent s

theorem performAll_coherent (operations : List (Operation σ)) (coherent : s.Coherent drawing) :
    (s.performAll operations).Coherent (operations.foldl lastDrawing drawing) := by
  induction operations generalizing s drawing with
  | nil => exact coherent
  | cons operation rest ih => exact ih (coherent.perform operation)

/-- What loads a program or goes back to the beginning. A drawing loads one if it compiles. -/
def restarts (s : Session σ) : Operation σ → Bool
  | .process _ | .resetPlayback | .reset => true
  | .processDrawing text => (s.convertDrawing text).result.isOk
  | .convertDrawing _ | .setDisplaySize _ _ | .start | .pause | .togglePause | .setSpeed _ | .tick _
  | .shift _ => false

/-- A session whose run has not begun. -/
structure Unmoved (s : Session σ) : Prop where
  run : s.engine.state = .initial
  pending : s.controller.hasPending = false

theorem unmoved_of_cancelled {c : Controller Float σ} {engine : Engine Float}
    (run : engine.state = .initial) (eq : s.controller = { c.cancelPending with engine }) :
    s.Unmoved where
  run := by rw [Session.engine, eq]; exact run
  pending := by
    rw [eq]
    exact congrArg Option.isSome Controller.cancelPending_pending

theorem perform_unmoved {operation : Operation σ} (restarts : s.restarts operation = true) :
    (s.perform operation).result = .ok () ∧ (s.perform operation).state.Unmoved := by
  have processed (s : Session σ) (text : List Char) : (s.process text).state.Unmoved :=
    unmoved_of_cancelled rfl rfl
  cases operation with
  | process text => exact ⟨rfl, processed s text⟩
  | processDrawing text =>
    cases compiled : (s.convertDrawing text).result with
    | error fault =>
      rw [Session.restarts, compiled] at restarts
      cases restarts
    | ok program =>
      obtain ⟨state, result⟩ := processDrawing_compiled compiled
      refine ⟨result, ?_⟩
      change (s.processDrawing text).state.Unmoved
      rw [state]
      exact processed _ program
  | resetPlayback => exact ⟨rfl, unmoved_of_cancelled rfl rfl⟩
  | reset => exact ⟨rfl, unmoved_of_cancelled rfl rfl⟩
  | _ => cases restarts

/-! The scheduler that a session has by itself fires when it is told to. -/

section Manual
variable {s : Session (ManualScheduler Nat)}

/-- What is asked of the session itself rather than of its scheduler. -/
def Operation.isOwn : Operation σ → Bool
  | .tick _ | .shift _ => false
  | .process _ | .processDrawing _ | .convertDrawing _ | .setDisplaySize _ _ | .start | .pause
  | .togglePause | .resetPlayback | .setSpeed _ | .reset => true

/-- What may be asked of a session and of its scheduler. -/
inductive Request where
  | ask (operation : Operation (ManualScheduler Nat)) (own : operation.isOwn = true)
  | runPending
  | runUntilIdle (maxTicks : Int)

/-- What a request comes to, its answer aside. -/
def serve (s : Session (ManualScheduler Nat)) :
    Request → Outcome Float (Session (ManualScheduler Nat)) Unit
  | .ask operation _ => s.perform operation
  | .runPending => (s.lift s.controller.runPending).map fun _ => ()
  | .runUntilIdle maxTicks => (s.lift (s.controller.runUntilIdle maxTicks)).map fun _ => ()

def serveAll (s : Session (ManualScheduler Nat)) (requests : List Request) :
    Session (ManualScheduler Nat) :=
  requests.foldl (fun s request => (s.serve request).state) s

def lastDrawingServed (drawing : Option (List Char)) : Request → Option (List Char)
  | .ask operation _ => lastDrawing drawing operation
  | .runPending | .runUntilIdle _ => drawing

theorem serve_coherent (coherent : s.Coherent drawing) (request : Request) :
    (s.serve request).state.Coherent (lastDrawingServed drawing request) := by
  cases request with
  | ask operation own => exact coherent.perform operation
  | runPending => exact coherent.drive (Controller.runPending_continues coherent.run)
  | runUntilIdle maxTicks =>
    refine coherent.drive ?_
    have round (c : Controller Float (ManualScheduler Nat))
        (continues : s.engine.Continues c.engine) :
        s.engine.Continues c.runPending.state.engine :=
      continues.trans (Controller.runPending_continues continues.same)
    exact Controller.runRounds_keeps (P := fun c => s.engine.Continues c.engine) round
      ⟨rfl, coherent.run⟩

theorem perform_queued {operation : Operation (ManualScheduler Nat)} (coherent : s.Coherent drawing)
    (own : operation.isOwn = true) (queued : s.controller.Queued) :
    (s.perform operation).state.controller.Queued := by
  have acted (action : Controller.Action Float) : (s.controller.perform action).state.Queued :=
    Controller.perform_queued action coherent.run queued
  cases operation with
  | process text => exact acted (.load (Program.parse text).moves)
  | processDrawing text =>
    change (s.processDrawing text).state.controller.Queued
    cases compiled : (s.convertDrawing text).result with
    | error fault =>
      rw [(processDrawing_failed compiled).1]
      exact queued
    | ok program =>
      rw [(processDrawing_compiled compiled).1]
      exact acted (.load (Program.parse program).moves)
  | convertDrawing text => exact queued
  | setDisplaySize width height => exact queued
  | start => exact acted .start
  | pause => exact acted .pause
  | togglePause => exact acted .togglePause
  | resetPlayback => exact acted .reset
  | setSpeed speed => exact acted (.setSpeed speed)
  | reset => exact acted (.load [])
  | tick _ | shift _ => cases own

theorem serve_queued {request : Request} (coherent : s.Coherent drawing)
    (queued : s.controller.Queued) : (s.serve request).state.controller.Queued := by
  cases request with
  | ask operation own => exact perform_queued coherent own queued
  | runPending => exact Controller.runPending_queued queued
  | runUntilIdle maxTicks =>
    exact Controller.runRounds_keeps (fun _ => Controller.runPending_queued) queued

theorem serveAll_coherent (requests : List Request) (coherent : s.Coherent drawing)
    (queued : s.controller.Queued) :
    (s.serveAll requests).Coherent (requests.foldl lastDrawingServed drawing) ∧
      (s.serveAll requests).controller.Queued := by
  induction requests generalizing s drawing with
  | nil => exact ⟨coherent, queued⟩
  | cons request rest ih =>
    exact ih (serve_coherent coherent request) (serve_queued coherent queued)

theorem Unmoved.empty_queue (unmoved : s.Unmoved) (queued : s.controller.Queued) :
    s.controller.scheduler.queue = [] := by
  have none : s.controller.pending = none := by
    simpa [Controller.hasPending] using unmoved.pending
  rw [queued, none]
  rfl

end Manual

omit [TickScheduler σ] in
theorem Coherent.index_bounds (coherent : s.Coherent drawing) :
    0 ≤ s.engine.state.index ∧ s.engine.state.index ≤ s.program.moves.length := by
  refine ⟨coherent.run.nonnegative, ?_⟩
  rw [← coherent.loaded]
  exact coherent.run.bounded

/-- After any operations, in any order, a session is coherent. Loading a program, going back to the
beginning of the run and resetting leave the run unmoved with no tick pending, and so does a drawing
that compiles; one that does not leaves everything but the reports on drawings as it was. The
scheduler that a session has by itself holds the pending tick and nothing else. -/
theorem stays_coherent (settings : SessionSettings) (scheduler : σ)
    (operations : List (Operation σ)) (requests : List Request) :
    (let s := (Session.new settings scheduler).performAll operations
     s.Coherent (operations.foldl lastDrawing none) ∧
     (0 ≤ s.engine.state.index ∧ s.engine.state.index ≤ s.program.moves.length) ∧
     (∀ operation, s.restarts operation = true →
       (s.perform operation).result = .ok () ∧ (s.perform operation).state.Unmoved) ∧
     ∀ text fault, (s.convertDrawing text).result = .error fault →
       (s.processDrawing text).state =
           { s with drawingDiagnostics := (readDxf text).diagnostics } ∧
         (s.processDrawing text).result = .error fault) ∧
    (let s := (Session.new settings ManualScheduler.empty).serveAll requests
     s.Coherent (requests.foldl lastDrawingServed none) ∧ s.controller.Queued ∧
     (0 ≤ s.engine.state.index ∧ s.engine.state.index ≤ s.program.moves.length) ∧
     ∀ operation, s.restarts operation = true →
       (s.perform operation).result = .ok () ∧ (s.perform operation).state.Unmoved ∧
         (s.perform operation).state.controller.scheduler.queue = []) := by
  constructor
  · have coherent := performAll_coherent operations (new_coherent settings scheduler)
    exact ⟨coherent, coherent.index_bounds, fun _ => perform_unmoved,
      fun _ _ => processDrawing_failed⟩
  · obtain ⟨coherent, queued⟩ := serveAll_coherent requests
      (new_coherent settings ManualScheduler.empty) (Controller.new_queued _)
    refine ⟨coherent, queued, coherent.index_bounds, ?_⟩
    intro operation restarts
    obtain ⟨result, unmoved⟩ := perform_unmoved restarts
    have own : operation.isOwn = true := by
      cases operation <;> first | rfl | cases restarts
    exact ⟨result, unmoved, unmoved.empty_queue (perform_queued coherent own queued)⟩

/-- A drawing that cannot be compiled leaves the run of the program before it running. -/
theorem failed_drawing_leaves_run :
    let config := { CompilerConfig.default with precision := -1 }
    let s := (Session.new ⟨50, 25, 3, 800, 600, 60, 0.9, config.compiler, -1⟩
      (ManualScheduler.empty : ManualScheduler Nat)).performAll [.process "G1 X10 F100".toList, .start,
        .processDrawing "0\nSECTION\n2\nENTITIES\n0\nLINE\n10\n1\n20\n2\n11\n3\n21\n4\n0\nENDSEC\n0\nEOF\n".toList]
    s.engine.state.status = .running ∧ s.controller.hasPending = true := by
  decide +kernel

end Toolpath.Session
