import Toolpath.Scalar

/-! The two movements that a program of motions consists of, and the points that a run reaches. -/
namespace Toolpath

inductive MoveKind where
  | rapid
  | linear
  deriving DecidableEq

def MoveKind.word : MoveKind → String
  | .rapid => "G0"
  | .linear => "G1"

/-- One resolved move in absolute coordinates, with the line that asked for it. -/
structure Move (α : Type) where
  kind : MoveKind
  x : α
  y : α
  feed : α
  line : Int

def Move.isRapid {α : Type} (move : Move α) : Bool := move.kind = .rapid

/-- A point reached by a run. Only the start has no kind. -/
structure Waypoint (α : Type) where
  x : α
  y : α
  kind : Option MoveKind

def Waypoint.start {α : Type} [Scalar α] : Waypoint α := ⟨Scalar.zero, Scalar.zero, none⟩

def Waypoint.ofMove {α : Type} (move : Move α) : Waypoint α := ⟨move.x, move.y, some move.kind⟩

/-- Same coordinates as numbers and the same kind. -/
def Waypoint.same {α : Type} [Scalar α] (p q : Waypoint α) : Bool :=
  Scalar.same p.x q.x && Scalar.same p.y q.y && p.kind == q.kind

end Toolpath
