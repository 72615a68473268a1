import Toolpath.Decimal.Notation
import Toolpath.Fault
import Toolpath.Motion
import Toolpath.Position

/-! What a run has reached, in order. A history is a value: appending makes a longer one and leaves the one
appended to as it was. Its items are waypoints, or waypoints with more about them. Where histories are kept
otherwise, a `Keeping` says how they begin and grow. -/
namespace Toolpath

structure History (π : Type) where
  items : Array π

namespace History
variable {π ρ : Type}

def ofList (items : List π) : History π := ⟨items.toArray⟩

def toList (h : History π) : List π := h.items.toList

def append (h : History π) (item : π) : History π := ⟨h.items.push item⟩

def length (h : History π) : Nat := h.items.size

def map (f : π → ρ) (h : History π) : History ρ := ⟨h.items.map f⟩

@[simp] theorem toList_ofList (items : List π) : (ofList items).toList = items := by
  simp [toList, ofList]

@[simp] theorem ofList_toList (h : History π) : ofList h.toList = h := by
  simp [toList, ofList]

@[simp] theorem toList_append (h : History π) (item : π) : (h.append item).toList = h.toList ++ [item] := by
  simp [toList, append]

@[simp] theorem length_toList (h : History π) : h.toList.length = h.length := by
  simp [toList, length]

@[simp] theorem toList_map (f : π → ρ) (h : History π) : (h.map f).toList = h.toList.map f := by
  simp [toList, map]

def get (h : History π) (position : Int) : Except Fault π :=
  match (Position.place? h.length position).bind fun place => h.items[place]? with
  | some item => .ok item
  | none => .error .waypointOutOfRange

/-- An end of a slice moved into the range from `low` to `high`. -/
def clampEnd (h : History π) (low high position : Int) : Int :=
  max low (min high (Position.fromFront h.length position))

/-- The places from `first` by `step`, `count` of them. -/
def places (first step : Int) (count : Nat) : List Int := (List.range count).map fun i : Nat => first + ↑i * step

/-- How many steps from `first` stay short of `last`. -/
def stepCount (first last step : Int) : Nat :=
  if 0 < step then ((last - first + step - 1) / step).toNat else ((first - last - step - 1) / -step).toNat

/-- The items at every `step`-th place from `first` up to, and without, `last`. Ends that are left out are the
history's own; a negative step runs backwards. -/
def slice (h : History π) (first last step : Option Int) : Except Fault (List π) :=
  let size : Int := h.length
  let step := step.getD 1
  if step = 0 then .error .zeroSliceStep
  else
    let (low, high) := if 0 < step then (0, size) else (-1, size - 1)
    let (atStart, atEnd) := if 0 < step then (low, high) else (high, low)
    let first := (first.map (h.clampEnd low high)).getD atStart
    let last := (last.map (h.clampEnd low high)).getD atEnd
    .ok ((places first step (stepCount first last step)).filterMap fun i => h.items[i.toNat]?)

/-- Whether two lists have the same items in the same order, where `same` says which items are the same. -/
def sameItems (same : π → π → Bool) : List π → List π → Bool
  | [], [] => true
  | p :: ps, q :: qs => same p q && sameItems same ps qs
  | _, _ => false

/-- The history of a run that has not moved. -/
def start {α : Type} [Scalar α] : History (Waypoint α) := ⟨#[.start]⟩

def kindText : Option MoveKind → String
  | none => "None"
  | some .rapid => "<MoveKind.RAPID: 'G0'>"
  | some .linear => "<MoveKind.LINEAR: 'G1'>"

def pointText (p : Waypoint Float) : String :=
  "PathPoint(x=" ++ String.ofList (Decimal.exact p.x) ++ ", y=" ++ String.ofList (Decimal.exact p.y) ++
    ", kind=" ++ kindText p.kind ++ ")"

def text (h : History (Waypoint Float)) : String :=
  "WaypointHistory([" ++ ", ".intercalate (h.toList.map pointText) ++ "])"

end History

/-- A way to keep histories that are made one from another: `σ` holds what they share, `η` stands for one. -/
structure Keeping (σ η π : Type) where
  begin : σ → List π → σ × η
  append : σ → η → π → σ × η

/-- Histories that are values share nothing. -/
def Keeping.values {π : Type} : Keeping Unit (History π) π where
  begin _ items := ((), .ofList items)
  append _ h item := ((), h.append item)

end Toolpath
