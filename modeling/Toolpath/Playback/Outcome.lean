import Toolpath.Log.Entry
import Toolpath.Playback.State

/-! What an operation on something that holds a run comes to: the thing afterwards, the playback states it took
on in order, each of which goes to every listener, the notes it made, and the answer or the fault that ended
it. What had changed before a fault stays changed. -/
namespace Toolpath

structure Outcome (α σ β : Type) where
  state : σ
  announced : List (PlaybackState α)
  log : List Log.Entry
  result : Except Fault β

namespace Outcome
variable {α σ τ β γ : Type}

/-- Nothing happened. -/
def quiet (state : σ) (answer : β) : Outcome α σ β := ⟨state, [], [], .ok answer⟩

def failed (state : σ) (fault : Fault) : Outcome α σ β := ⟨state, [], [], .error fault⟩

/-- Only notes were made. -/
def noted (state : σ) (log : List Log.Entry) (answer : β) : Outcome α σ β := ⟨state, [], log, .ok answer⟩

/-- The same for what holds the thing as a part. -/
def within (o : Outcome α σ β) (hold : σ → τ) : Outcome α τ β := ⟨hold o.state, o.announced, o.log, o.result⟩

def map (o : Outcome α σ β) (f : β → γ) : Outcome α σ γ := ⟨o.state, o.announced, o.log, o.result.map f⟩

/-- Does something more after an operation that had no fault. -/
def andThen (o : Outcome α σ β) (next : σ → β → Outcome α σ γ) : Outcome α σ γ :=
  match o.result with
  | .error fault => ⟨o.state, o.announced, o.log, .error fault⟩
  | .ok answer =>
    let p := next o.state answer
    ⟨p.state, o.announced ++ p.announced, o.log ++ p.log, p.result⟩

/-- Makes notes before an operation. -/
def after (log : List Log.Entry) (o : Outcome α σ β) : Outcome α σ β := { o with log := log ++ o.log }

end Outcome

end Toolpath
