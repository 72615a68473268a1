import Toolpath.Playback.History

/-! Histories that share lists. Each is the first so many items of a list that others may be cut from as well.
Appending to the longest of them extends the list itself; appending to a shorter one copies its items to a list
of its own. What is asked of a history is answered from its list, up to its length. -/
namespace Toolpath

/-- The lists that histories are cut from. -/
structure Backing (π : Type) where
  lists : List (List π)

/-- The first `length` items of the list at the place `list`. -/
structure Snapshot where
  list : Nat
  length : Nat

namespace Backing
variable {π : Type}

def empty : Backing π := ⟨[]⟩

def listOf (b : Backing π) (h : Snapshot) : List π := b.lists.getD h.list []

/-- A list of its own for some items. -/
def begin (b : Backing π) (items : List π) : Backing π × Snapshot :=
  (⟨b.lists ++ [items]⟩, ⟨b.lists.length, items.length⟩)

def iterate (b : Backing π) (h : Snapshot) : List π := (b.listOf h).take h.length

def append (b : Backing π) (h : Snapshot) (item : π) : Backing π × Snapshot :=
  if h.length = (b.listOf h).length then (⟨b.lists.modify h.list (· ++ [item])⟩, ⟨h.list, h.length + 1⟩)
  else (⟨b.lists ++ [b.iterate h ++ [item]]⟩, ⟨b.lists.length, h.length + 1⟩)

/-- A snapshot as a value. -/
def read (b : Backing π) (h : Snapshot) : History π := .ofList (b.iterate h)

def get (b : Backing π) (h : Snapshot) (position : Int) : Except Fault π :=
  match (Position.place? h.length position).bind fun place => (b.listOf h)[place]? with
  | some item => .ok item
  | none => .error .waypointOutOfRange

def slice (b : Backing π) (h : Snapshot) (first last step : Option Int) : Except Fault (List π) :=
  (b.read h).slice first last step

/-- From the last item to the first, one position after the other. -/
def backwards (b : Backing π) (h : Snapshot) : Except Fault (List π) :=
  (List.range h.length).reverse.mapM fun place : Nat => b.get h place

section Comparing
variable (same : π → π → Bool)

def contains (b : Backing π) (h : Snapshot) (item : π) : Bool := (b.iterate h).any (same · item)

def count (b : Backing π) (h : Snapshot) (item : π) : Nat := (b.iterate h).countP (same · item)

/-- Compared with the items of a history or of another sequence. -/
def sameAs (b : Backing π) (h : Snapshot) (items : List π) : Bool :=
  h.length == items.length && ((b.iterate h).zip items).all fun (p, q) => same p q

end Comparing

end Backing

def Keeping.shared {π : Type} : Keeping (Backing π) Snapshot π := ⟨Backing.begin, Backing.append⟩

end Toolpath
