/-! Positions in a sequence. They count from the front, or from the back if negative: -1 is the last place. -/
namespace Toolpath.Position

/-- A position as a distance from the front. -/
def fromFront (length : Nat) (position : Int) : Int := if position < 0 then position + length else position

/-- The place that a position stands for, if there is one. -/
def place? (length : Nat) (position : Int) : Option Nat :=
  if 0 ≤ fromFront length position ∧ fromFront length position < length then
    some (fromFront length position).toNat
  else none

theorem place?_lt {length place : Nat} {position : Int} (h : place? length position = some place) :
    place < length := by
  unfold place? at h
  split at h
  · rename_i bounds
    cases h
    omega
  · cases h

def item? {α : Type} (items : List α) (position : Int) : Option α :=
  (place? items.length position).bind fun place => items[place]?

end Toolpath.Position
