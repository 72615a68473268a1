import Toolpath.Numeric.Double
import Toolpath.Numeric.Fingerprint
import Toolpath.Playback.History

/-! Histories made one from another. An archive keeps every history that was made, so any of them can be
continued more than once. Each waypoint that comes in is numbered by its arrival, and a history hands its
waypoints on with their numbers. Two waypoints are the same if they are one arrival, or have the same coordinates
and kind; a coordinate that is no number is the same only within one arrival. -/
namespace Toolpath

structure Arrival where
  number : Nat
  point : Waypoint Float

namespace Arrival

def same (p q : Arrival) : Bool := p.number == q.number || p.point.same q.point

/-- What arrivals that are the same have in common. A coordinate that is no number goes by its arrival. -/
structure Fingerprint where
  x : Option Int
  y : Option Int
  kind : Option MoveKind
  number : Option Nat
  deriving DecidableEq

def fingerprint (p : Arrival) : Fingerprint :=
  let x := Binary64.fingerprint? p.point.x
  let y := Binary64.fingerprint? p.point.y
  ⟨x, y, p.point.kind, if x.isSome && y.isSome then none else some p.number⟩

end Arrival

structure Archive where
  histories : Array (History Arrival)
  arrivals : Nat

namespace Archive

/-- Holds the history of a run that has not moved; its start is the first arrival. -/
def initial : Archive := ⟨#[.ofList [⟨0, .start⟩]], 1⟩

def keep (a : Archive) (h : History Arrival) (arrivals : Nat) : Archive := ⟨a.histories.push h, arrivals⟩

/-- Numbers points in the order of their arrival. -/
def receive (number : Nat) : List (Waypoint Float) → List Arrival
  | [] => []
  | p :: rest => ⟨number, p⟩ :: receive (number + 1) rest

/-- Begins a history with points that have not been seen before. -/
def begin (a : Archive) (points : List (Waypoint Float)) : Archive :=
  a.keep (.ofList (receive a.arrivals points)) (a.arrivals + points.length)

def find (a : Archive) (position : Int) : Except Fault (History Arrival) :=
  match (Position.place? a.histories.size position).bind fun place => a.histories[place]? with
  | some h => .ok h
  | none => .error .noSuchHistory

/-- Makes a longer history; the one continued stays. -/
def append (a : Archive) (h : History Arrival) (p : Waypoint Float) : Archive :=
  a.keep (h.append ⟨a.arrivals, p⟩) (a.arrivals + 1)

def latest (a : Archive) : Nat := a.histories.size - 1

end Archive

namespace History

def same (h k : History Arrival) : Bool := sameItems Arrival.same h.toList k.toList

def points (h : History Arrival) : History (Waypoint Float) := h.map (·.point)

/-- Compared with points that come from elsewhere. -/
def sameAs (h : History Arrival) (points : List (Waypoint Float)) : Bool :=
  sameItems Waypoint.same h.points.toList points

def contains (h : History Arrival) (p : Waypoint Float) : Bool := h.points.toList.any p.same

def count (h : History Arrival) (p : Waypoint Float) : Nat := h.points.toList.countP p.same

def sameFingerprints (h k : History Arrival) : Bool :=
  h.toList.map Arrival.fingerprint = k.toList.map Arrival.fingerprint

end History

end Toolpath
