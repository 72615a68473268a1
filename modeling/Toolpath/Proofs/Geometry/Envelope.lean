import Mathlib
import Toolpath.Geometry.Envelope
import Toolpath.Proofs.Numeric.Ordering

/-! Boxes around moves taken together. Of equal coordinates, the two zeros among them, the first one
stays, so the box of two lists of finite moves is, coordinate by coordinate, that of their boxes. It
is the least box that contains the targets of the moves. -/
namespace Toolpath

namespace Binary64
variable {x y z : Float}

theorem min_eq (x y : Float) : Scalar.min x y = if y < x then y else x := by
  unfold Scalar.min
  simp only [Scalar.lt, decide_eq_true_eq]

theorem max_eq (x y : Float) : Scalar.max x y = if x < y then y else x := by
  unfold Scalar.max
  simp only [Scalar.lt, decide_eq_true_eq]

theorem isFinite_min (finiteX : isFinite x = true) (finiteY : isFinite y = true) :
    isFinite (Scalar.min x y) = true := by
  rw [min_eq]
  split <;> assumption

theorem isFinite_max (finiteX : isFinite x = true) (finiteY : isFinite y = true) :
    isFinite (Scalar.max x y) = true := by
  rw [max_eq]
  split <;> assumption

/-- Either of two doubles in order is in order with a third one. -/
theorem lt_or_lt (finiteX : isFinite x = true) (finiteY : isFinite y = true)
    (finiteZ : isFinite z = true) (less : x < y) : x < z ∨ z < y := by
  obtain ⟨l, a, ha, rfl⟩ := exists_ofCode finiteX
  obtain ⟨m, b, hb, rfl⟩ := exists_ofCode finiteY
  obtain ⟨n, c, hc, rfl⟩ := exists_ofCode finiteZ
  rw [lt_ofCode l m ha hb] at less
  rw [lt_ofCode l n ha hc, lt_ofCode n m hc hb]
  omega

theorem lt_asymm (finiteX : isFinite x = true) (finiteY : isFinite y = true) (less : x < y) :
    ¬ y < x := by
  obtain ⟨l, a, ha, rfl⟩ := exists_ofCode finiteX
  obtain ⟨m, b, hb, rfl⟩ := exists_ofCode finiteY
  rw [lt_ofCode l m ha hb] at less
  rw [lt_ofCode m l hb ha]
  omega

theorem min_assoc (finiteX : isFinite x = true) (finiteY : isFinite y = true)
    (finiteZ : isFinite z = true) :
    Scalar.min (Scalar.min x y) z = Scalar.min x (Scalar.min y z) := by
  simp only [min_eq]
  by_cases yx : y < x
  · -- `x` is not the least, so it drops out on both sides
    rw [if_pos yx]
    by_cases zy : z < y
    · have zx : z < x := (lt_or_lt finiteZ finiteY finiteX zy).resolve_right (lt_asymm finiteY finiteX yx)
      simp only [if_pos zy, if_pos zx]
    · simp only [if_neg zy, if_pos yx]
  · rw [if_neg yx]
    by_cases zy : z < y
    · simp only [if_pos zy]
    · have zx : ¬ z < x := fun zx => (lt_or_lt finiteZ finiteX finiteY zx).elim zy yx
      simp only [if_neg zy, if_neg zx, if_neg yx]

theorem max_assoc (finiteX : isFinite x = true) (finiteY : isFinite y = true)
    (finiteZ : isFinite z = true) :
    Scalar.max (Scalar.max x y) z = Scalar.max x (Scalar.max y z) := by
  simp only [max_eq]
  by_cases xy : x < y
  · rw [if_pos xy]
    by_cases yz : y < z
    · have xz : x < z := (lt_or_lt finiteY finiteZ finiteX yz).resolve_left (lt_asymm finiteX finiteY xy)
      simp only [if_pos yz, if_pos xz]
    · simp only [if_neg yz, if_pos xy]
  · rw [if_neg xy]
    by_cases yz : y < z
    · simp only [if_pos yz]
    · have xz : ¬ x < z := fun xz => (lt_or_lt finiteX finiteZ finiteY xz).elim xy yz
      simp only [if_neg yz, if_neg xz, if_neg xy]

theorem min_le (finiteX : isFinite x = true) (finiteY : isFinite y = true) :
    Scalar.min x y ≤ x ∧ Scalar.min x y ≤ y := by
  rw [min_eq]
  split
  · rename_i less
    exact ⟨le_of_lt finiteY finiteX less, le_refl finiteY⟩
  · rename_i notLess
    exact ⟨le_refl finiteX, (not_lt_iff finiteY finiteX).mp notLess⟩

theorem le_max (finiteX : isFinite x = true) (finiteY : isFinite y = true) :
    x ≤ Scalar.max x y ∧ y ≤ Scalar.max x y := by
  rw [max_eq]
  split
  · rename_i less
    exact ⟨le_of_lt finiteX finiteY less, le_refl finiteY⟩
  · rename_i notLess
    exact ⟨le_refl finiteX, (not_lt_iff finiteX finiteY).mp notLess⟩

theorem le_min (first : z ≤ x) (second : z ≤ y) : z ≤ Scalar.min x y := by
  rw [min_eq]
  split
  · exact second
  · exact first

theorem max_le (first : x ≤ z) (second : y ≤ z) : Scalar.max x y ≤ z := by
  rw [max_eq]
  split
  · exact second
  · exact first

end Binary64

namespace Envelope
variable {α : Type} [Scalar α]

/-- The box around two boxes. -/
def union (box other : Envelope α) : Envelope α :=
  ⟨Scalar.min box.minX other.minX, Scalar.max box.maxX other.maxX,
    Scalar.min box.minY other.minY, Scalar.max box.maxY other.maxY⟩

/-- What has no box adds nothing. -/
def union? : Option (Envelope α) → Option (Envelope α) → Option (Envelope α)
  | none, other => other
  | some box, none => some box
  | some box, some other => some (box.union other)

theorem extend_eq_union? (box : Option (Envelope α)) (x y : α) :
    some (extend box x y) = union? box (some (around x y)) := by
  cases box <;> rfl

theorem bounds?_concat (moves : List (Move α)) (move : Move α) :
    bounds? (moves ++ [move]) = union? (bounds? moves) (some (around move.x move.y)) := by
  rw [bounds?, List.foldl_append, List.foldl_cons, List.foldl_nil, ← bounds?, extend_eq_union?]

/-- What the boxes around single points have in common, and what joining two boxes keeps, the box around
moves has too. -/
theorem bounds?_keeps {P : Envelope α → Prop} (joins : ∀ {a b}, P a → P b → P (a.union b))
    {moves : List (Move α)} (points : ∀ move ∈ moves, P (around move.x move.y)) :
    ∀ box ∈ bounds? moves, P box := by
  induction moves using List.reverseRecOn with
  | nil => rintro box ⟨⟩
  | append_singleton moves last ih =>
    obtain ⟨before, here⟩ := List.forall_mem_append.mp points
    have point := here last List.mem_cons_self
    rw [bounds?_concat]
    intro box member
    cases begun : bounds? moves with
    | none =>
      rw [begun] at member
      cases member
      exact point
    | some old =>
      rw [begun] at member
      cases member
      exact joins (ih before old begun) point

/-- A box with finite sides. -/
structure Finite (box : Envelope Float) : Prop where
  minX : Binary64.isFinite box.minX = true
  maxX : Binary64.isFinite box.maxX = true
  minY : Binary64.isFinite box.minY = true
  maxY : Binary64.isFinite box.maxY = true

variable {a b c : Envelope Float}

theorem Finite.union (finite : a.Finite) (other : b.Finite) : (a.union b).Finite :=
  ⟨Binary64.isFinite_min finite.minX other.minX, Binary64.isFinite_max finite.maxX other.maxX,
    Binary64.isFinite_min finite.minY other.minY, Binary64.isFinite_max finite.maxY other.maxY⟩

theorem union_assoc (finiteA : a.Finite) (finiteB : b.Finite) (finiteC : c.Finite) :
    (a.union b).union c = a.union (b.union c) := by
  unfold Envelope.union
  simp only [Binary64.min_assoc finiteA.minX finiteB.minX finiteC.minX,
    Binary64.max_assoc finiteA.maxX finiteB.maxX finiteC.maxX,
    Binary64.min_assoc finiteA.minY finiteB.minY finiteC.minY,
    Binary64.max_assoc finiteA.maxY finiteB.maxY finiteC.maxY]

theorem union?_assoc {a b c : Option (Envelope Float)} (finiteA : ∀ box ∈ a, box.Finite)
    (finiteB : ∀ box ∈ b, box.Finite) (finiteC : ∀ box ∈ c, box.Finite) :
    union? (union? a b) c = union? a (union? b c) := by
  cases a with
  | none => rfl
  | some a =>
    cases b with
    | none => rfl
    | some b =>
      cases c with
      | none => rfl
      | some c => exact congrArg some (union_assoc (finiteA a rfl) (finiteB b rfl) (finiteC c rfl))

/-- A move to a finite point. -/
def FiniteTarget (move : Move Float) : Prop :=
  Binary64.isFinite move.x = true ∧ Binary64.isFinite move.y = true

theorem finite_around {move : Move Float} (finite : FiniteTarget move) :
    (around move.x move.y).Finite :=
  ⟨finite.1, finite.1, finite.2, finite.2⟩

theorem bounds?_finite {moves : List (Move Float)} (finite : ∀ move ∈ moves, FiniteTarget move) :
    ∀ box ∈ bounds? moves, box.Finite :=
  bounds?_keeps .union fun move member => finite_around (finite move member)

/-- The box of moves and others after them is the box around those of both. -/
theorem bounds?_append {moves others : List (Move Float)}
    (finite : ∀ move ∈ moves, FiniteTarget move) (finiteOthers : ∀ move ∈ others, FiniteTarget move) :
    bounds? (moves ++ others) = union? (bounds? moves) (bounds? others) := by
  induction others using List.reverseRecOn with
  | nil =>
    rw [List.append_nil]
    cases bounds? moves <;> rfl
  | append_singleton others move ih =>
    obtain ⟨finiteOthers, finiteMove⟩ := List.forall_mem_append.mp finiteOthers
    rw [← List.append_assoc, bounds?_concat, bounds?_concat, ih finiteOthers]
    have last : ∀ box ∈ some (around move.x move.y), box.Finite := by
      rintro box ⟨⟩
      exact finite_around (finiteMove move List.mem_cons_self)
    exact union?_assoc (bounds?_finite finite) (bounds?_finite finiteOthers) last

/-! Boxes in boxes. The box around moves lies in every box that contains their targets. -/

structure Within (inner outer : Envelope Float) : Prop where
  minX : outer.minX ≤ inner.minX
  maxX : inner.maxX ≤ outer.maxX
  minY : outer.minY ≤ inner.minY
  maxY : inner.maxY ≤ outer.maxY

/-- Sides that are equal as numbers. -/
def same (box other : Envelope α) : Bool :=
  (Scalar.same box.minX other.minX && Scalar.same box.maxX other.maxX) &&
    (Scalar.same box.minY other.minY && Scalar.same box.maxY other.maxY)

theorem contains_iff (box : Envelope Float) (x y : Float) :
    box.contains x y = true ↔ (around x y).Within box := by
  simp only [contains, Scalar.le, Bool.and_eq_true, decide_eq_true_eq]
  constructor
  · rintro ⟨⟨left, right⟩, below, above⟩
    exact ⟨left, right, below, above⟩
  · rintro ⟨left, right, below, above⟩
    exact ⟨⟨left, right⟩, below, above⟩

theorem Within.refl (finite : a.Finite) : a.Within a :=
  ⟨Binary64.le_refl finite.minX, Binary64.le_refl finite.maxX, Binary64.le_refl finite.minY,
    Binary64.le_refl finite.maxY⟩

theorem Within.trans (finiteA : a.Finite) (finiteB : b.Finite) (finiteC : c.Finite)
    (inner : a.Within b) (outer : b.Within c) : a.Within c where
  minX := Binary64.le_trans finiteC.minX finiteB.minX finiteA.minX outer.minX inner.minX
  maxX := Binary64.le_trans finiteA.maxX finiteB.maxX finiteC.maxX inner.maxX outer.maxX
  minY := Binary64.le_trans finiteC.minY finiteB.minY finiteA.minY outer.minY inner.minY
  maxY := Binary64.le_trans finiteA.maxY finiteB.maxY finiteC.maxY inner.maxY outer.maxY

theorem Within.antisymm (finiteA : a.Finite) (finiteB : b.Finite) (inner : a.Within b)
    (outer : b.Within a) : a.same b = true := by
  simp only [same, Scalar.same, Bool.and_eq_true]
  refine ⟨⟨?_, ?_⟩, ?_, ?_⟩
  · exact Binary64.beq_of_le finiteA.minX finiteB.minX outer.minX inner.minX
  · exact Binary64.beq_of_le finiteA.maxX finiteB.maxX inner.maxX outer.maxX
  · exact Binary64.beq_of_le finiteA.minY finiteB.minY outer.minY inner.minY
  · exact Binary64.beq_of_le finiteA.maxY finiteB.maxY inner.maxY outer.maxY

/-- Both boxes lie in their union. -/
theorem within_union (finiteA : a.Finite) (finiteB : b.Finite) :
    a.Within (a.union b) ∧ b.Within (a.union b) := by
  have left := Binary64.min_le finiteA.minX finiteB.minX
  have right := Binary64.le_max finiteA.maxX finiteB.maxX
  have below := Binary64.min_le finiteA.minY finiteB.minY
  have above := Binary64.le_max finiteA.maxY finiteB.maxY
  exact ⟨⟨left.1, right.1, below.1, above.1⟩, left.2, right.2, below.2, above.2⟩

/-- What both boxes lie in, their union lies in. -/
theorem Within.union (first : a.Within c) (second : b.Within c) : (a.union b).Within c where
  minX := Binary64.le_min first.minX second.minX
  maxX := Binary64.max_le first.maxX second.maxX
  minY := Binary64.le_min first.minY second.minY
  maxY := Binary64.max_le first.maxY second.maxY

/-- A box and one that may not have begun yet lie in their union. -/
theorem exists_union? {begun : Option (Envelope Float)} (finite : ∀ box ∈ begun, box.Finite)
    (finiteA : a.Finite) :
    ∃ box ∈ union? begun (some a), a.Within box ∧ ∀ b ∈ begun, b.Within box := by
  cases begun with
  | none => exact ⟨a, rfl, .refl finiteA, nofun⟩
  | some b =>
    obtain ⟨old, new⟩ := within_union (finite b rfl) finiteA
    refine ⟨b.union a, rfl, new, ?_⟩
    rintro c ⟨⟩
    exact old

theorem bounds?_contains {moves : List (Move Float)} (finite : ∀ move ∈ moves, FiniteTarget move) :
    ∀ move ∈ moves, ∃ box ∈ bounds? moves, box.contains move.x move.y = true := by
  induction moves using List.reverseRecOn with
  | nil => rintro move ⟨⟩
  | append_singleton moves last ih =>
    have whole := bounds?_finite finite
    obtain ⟨finiteMoves, finiteLast⟩ := List.forall_mem_append.mp finite
    have point := finite_around (finiteLast last List.mem_cons_self)
    have before := bounds?_finite finiteMoves
    rw [bounds?_concat] at whole ⊢
    obtain ⟨box, bounds, inside, grown⟩ := exists_union? before point
    intro move member
    refine ⟨box, bounds, ?_⟩
    rw [contains_iff]
    rcases List.mem_append.mp member with earlier | here
    · obtain ⟨old, oldBounds, contained⟩ := ih finiteMoves move earlier
      have finiteMove := finite_around (finiteMoves move earlier)
      exact .trans finiteMove (before old oldBounds) (whole box bounds)
        ((contains_iff _ _ _).mp contained) (grown old oldBounds)
    · rw [List.mem_singleton.mp here]
      exact inside

theorem bounds?_least {moves : List (Move Float)}
    (inside : ∀ move ∈ moves, c.contains move.x move.y = true) : ∀ box ∈ bounds? moves, box.Within c :=
  bounds?_keeps .union fun move member => (contains_iff c _ _).mp (inside move member)

theorem ofMoves_contains {moves : List (Move Float)} (finite : ∀ move ∈ moves, FiniteTarget move) :
    ∀ move ∈ moves, (ofMoves moves).contains move.x move.y = true := by
  intro move member
  obtain ⟨box, bounds, contained⟩ := bounds?_contains finite move member
  rw [ofMoves, bounds]
  exact contained

theorem ofMoves_mem {moves : List (Move Float)} (nonempty : moves ≠ []) :
    ofMoves moves ∈ bounds? moves := by
  rw [ofMoves, ← List.dropLast_append_getLast nonempty, bounds?_concat]
  cases bounds? moves.dropLast <;> rfl

theorem ofMoves_least {moves : List (Move Float)} (nonempty : moves ≠ [])
    (inside : ∀ move ∈ moves, c.contains move.x move.y = true) : (ofMoves moves).Within c :=
  bounds?_least inside _ (ofMoves_mem nonempty)

theorem finite_default : (default : Envelope Float).Finite := by
  constructor <;> decide

theorem finite_ofMoves {moves : List (Move Float)} (finite : ∀ move ∈ moves, FiniteTarget move) :
    (ofMoves moves).Finite := by
  have bounded := bounds?_finite finite
  rw [ofMoves]
  cases bounds : bounds? moves with
  | none => exact finite_default
  | some box => exact bounded box bounds

/-- The order of the moves makes no difference to the numbers of their box, though it may to the
signs of its zeros. -/
theorem ofMoves_perm {moves others : List (Move Float)}
    (finite : ∀ move ∈ moves, FiniteTarget move) (perm : others.Perm moves) :
    (ofMoves others).same (ofMoves moves) = true := by
  have finiteOthers : ∀ move ∈ others, FiniteTarget move :=
    fun move member => finite move (perm.mem_iff.mp member)
  by_cases empty : moves = []
  · subst empty
    rw [List.perm_nil.mp perm]
    exact Within.antisymm finite_default finite_default (.refl finite_default) (.refl finite_default)
  · have nonempty : others ≠ [] := by
      rintro rfl
      exact empty (List.nil_perm.mp perm)
    apply Within.antisymm (finite_ofMoves finiteOthers) (finite_ofMoves finite)
    · apply ofMoves_least nonempty
      intro move member
      exact ofMoves_contains finite move (perm.mem_iff.mp member)
    · apply ofMoves_least empty
      intro move member
      exact ofMoves_contains finiteOthers move (perm.mem_iff.mpr member)

end Envelope

end Toolpath
