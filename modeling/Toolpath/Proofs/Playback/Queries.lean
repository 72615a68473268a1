import Mathlib
import Toolpath.Playback.History

/-! What is asked of a history, as a question about the plain list of its items. A position names a
place from the front or, if negative, from the back; a slice names the places between its ends that
lie a multiple of its step from where it starts. -/
namespace Toolpath.History
variable {π : Type}

theorem place?_front {length place : Nat} (inside : place < length) :
    Position.place? length place = some place := by
  have front : Position.fromFront length place = place := if_neg (by omega)
  rw [Position.place?, front, if_pos (by omega), Int.toNat_natCast]

theorem place?_back {length place : Nat} (inside : place < length) :
    Position.place? length (place - length) = some place := by
  have front : Position.fromFront length (place - length) = place := by
    rw [Position.fromFront, if_pos (by omega)]
    omega
  rw [Position.place?, front, if_pos (by omega), Int.toNat_natCast]

theorem place?_outside {length : Nat} {position : Int}
    (outside : position < -length ∨ length ≤ position) :
    Position.place? length position = none := by
  unfold Position.place? Position.fromFront
  apply if_neg
  split <;> omega

/-! The places of a slice. -/

/-- The places among `size` that a slice names, in its own order. An end that is left out is no
bound, and a slice starts inside the list. -/
def slicePlaces (size : Nat) (first last : Option Int) (step : Int) : List Nat :=
  let front := Position.fromFront size
  if 0 < step then
    let start := max 0 ((first.map front).getD 0)
    let stop := (last.map front).getD size
    (List.range size).filter fun place : Nat => start ≤ place ∧ place < stop ∧ step ∣ place - start
  else
    let start := min (size - 1 : Int) ((first.map front).getD (size - 1))
    let stop := (last.map front).getD (-1)
    ((List.range size).filter fun place : Nat =>
      place ≤ start ∧ stop < place ∧ step ∣ start - place).reverse

/-- The items of a list at the places that a slice names. -/
def sliceItems (items : List π) (first last : Option Int) (step : Int) : List π :=
  (slicePlaces items.length first last step).filterMap (items[·]?)

theorem lt_stepCount_up {first last step : Int} (up : 0 < step) (i : Nat) :
    i < stepCount first last step ↔ first + i * step < last := by
  rw [stepCount, if_pos up, Int.lt_toNat, ← Int.add_one_le_iff, Int.le_ediv_iff_mul_le up,
    Int.add_mul]
  omega

theorem lt_stepCount_down {first last step : Int} (down : step < 0) (i : Nat) :
    i < stepCount first last step ↔ last < first + i * step := by
  rw [stepCount, if_neg (by omega), Int.lt_toNat, ← Int.add_one_le_iff,
    Int.le_ediv_iff_mul_le (by omega), Int.add_mul, Int.mul_neg]
  omega

theorem mem_places_up {first last step place : Int} (up : 0 < step) :
    place ∈ places first step (stepCount first last step) ↔
      first ≤ place ∧ place < last ∧ step ∣ place - first := by
  simp only [places, List.mem_map, List.mem_range, lt_stepCount_up up]
  constructor
  · rintro ⟨i, below, rfl⟩
    have forward : 0 ≤ i * step := Int.mul_nonneg (by omega) up.le
    exact ⟨by omega, below, ⟨i, by rw [Int.mul_comm]; omega⟩⟩
  · rintro ⟨above, below, k, eq⟩
    have forward : 0 ≤ k := by
      by_contra back
      have := Int.mul_neg_of_pos_of_neg up (by omega : k < 0)
      omega
    have shape : first + k.toNat * step = place := by
      rw [Int.toNat_of_nonneg forward, Int.mul_comm]
      omega
    exact ⟨k.toNat, by omega, shape⟩

theorem mem_places_down {first last step place : Int} (down : step < 0) :
    place ∈ places first step (stepCount first last step) ↔
      place ≤ first ∧ last < place ∧ step ∣ first - place := by
  simp only [places, List.mem_map, List.mem_range, lt_stepCount_down down]
  constructor
  · rintro ⟨i, above, rfl⟩
    have back : i * step ≤ 0 := Int.mul_nonpos_of_nonneg_of_nonpos (by omega) down.le
    exact ⟨by omega, above, ⟨-i, by rw [Int.mul_neg, Int.mul_comm]; omega⟩⟩
  · rintro ⟨below, above, k, eq⟩
    have backward : k ≤ 0 := by
      by_contra forward
      have := Int.mul_neg_of_neg_of_pos down (by omega : 0 < k)
      omega
    have shape : first + (-k).toNat * step = place := by
      rw [Int.toNat_of_nonneg (by omega), Int.neg_mul, Int.mul_comm]
      omega
    exact ⟨(-k).toNat, by omega, shape⟩

theorem places_up {first step : Int} (up : 0 < step) (count : Nat) :
    (places first step count).Pairwise (· < ·) := by
  rw [places, List.pairwise_map]
  refine List.pairwise_lt_range.imp fun {i j} less => ?_
  have := Int.mul_lt_mul_of_pos_right (Int.ofNat_lt.mpr less) up
  omega

theorem places_down {first step : Int} (down : step < 0) (count : Nat) :
    (places first step count).Pairwise (· > ·) := by
  rw [places, List.pairwise_map]
  refine List.pairwise_lt_range.imp fun {i j} less => ?_
  have := Int.mul_lt_mul_of_neg_right (Int.ofNat_lt.mpr less) down
  omega

theorem clampEnd_getD (h : History π) {low high preset : Int} (above : low ≤ preset)
    (below : preset ≤ high) (position : Option Int) :
    (position.map (h.clampEnd low high)).getD preset =
      max low (min high ((position.map (Position.fromFront h.length)).getD preset)) := by
  cases position with
  | none => simp only [Option.map_none, Option.getD_none]; omega
  | some position => rfl

/-- Stepping up from the start of a slice meets the places that it names, in order. -/
theorem places_up_eq (size : Nat) (first last : Int) {step : Int} (up : 0 < step) :
    let start := max 0 (min (size : Int) first)
    places start step (stepCount start (max 0 (min (size : Int) last)) step) =
      ((List.range size).filter fun place : Nat =>
        max 0 first ≤ place ∧ place < last ∧ step ∣ place - max 0 first).map fun place : Nat =>
          (place : Int) := by
  intro start
  apply (places_up up _).eq_of_mem_iff
  · rw [List.pairwise_map]
    exact (List.pairwise_lt_range.filter _).imp fun less => Int.ofNat_lt.mpr less
  · intro place
    rw [mem_places_up up]
    simp only [List.mem_map, List.mem_filter, List.mem_range, decide_eq_true_eq]
    constructor
    · rintro ⟨above, below, divides⟩
      have same : start = max 0 first := by omega
      rw [same] at divides
      lift place to Nat using by omega
      exact ⟨place, ⟨by omega, by omega, by omega, divides⟩, rfl⟩
    · rintro ⟨place, ⟨inside, above, below, divides⟩, rfl⟩
      have same : start = max 0 first := by omega
      rw [← same] at divides
      exact ⟨by omega, by omega, divides⟩

/-- Stepping down meets them from the last to the first. -/
theorem places_down_eq (size : Nat) (first last : Int) {step : Int} (down : step < 0) :
    let start := max (-1) (min (size - 1 : Int) first)
    places start step (stepCount start (max (-1) (min (size - 1 : Int) last)) step) =
      ((List.range size).filter fun place : Nat =>
        place ≤ min (size - 1 : Int) first ∧ last < place ∧
          step ∣ min (size - 1 : Int) first - place).reverse.map fun place : Nat => (place : Int) := by
  intro start
  apply (places_down down _).eq_of_mem_iff
  · rw [List.pairwise_map, List.pairwise_reverse]
    exact (List.pairwise_lt_range.filter _).imp fun less => Int.ofNat_lt.mpr less
  · intro place
    rw [mem_places_down down]
    simp only [List.mem_map, List.mem_reverse, List.mem_filter, List.mem_range, decide_eq_true_eq]
    constructor
    · rintro ⟨below, above, divides⟩
      have same : start = min (size - 1 : Int) first := by omega
      rw [same] at divides
      lift place to Nat using by omega
      exact ⟨place, ⟨by omega, by omega, by omega, divides⟩, rfl⟩
    · rintro ⟨place, ⟨inside, below, above, divides⟩, rfl⟩
      have same : start = min (size - 1 : Int) first := by omega
      rw [← same] at divides
      exact ⟨by omega, by omega, divides⟩

/-- A slice is the items at the places that it names. -/
theorem slice_eq (h : History π) (first last step : Option Int) :
    h.slice first last step = if step.getD 1 = 0 then .error .zeroSliceStep
      else .ok (sliceItems h.toList first last (step.getD 1)) := by
  have found (places : List Nat) :
      (places.map fun place : Nat => (place : Int)).filterMap (fun i => h.items[i.toNat]?) =
        places.filterMap (h.toList[·]?) := by
    rw [List.filterMap_map]
    congr 1
    funext place
    simp [toList]
  unfold slice
  generalize step.getD 1 = step
  by_cases still : step = 0
  · rw [if_pos still, if_pos still]
  rw [if_neg still, if_neg still, sliceItems, length_toList, ← found]
  by_cases up : 0 < step
  · simp only [if_pos up]
    rw [clampEnd_getD h le_rfl (by omega), clampEnd_getD h (by omega) le_rfl, slicePlaces, if_pos up,
      places_up_eq _ _ _ up]
  · simp only [if_neg up]
    rw [clampEnd_getD h (by omega) le_rfl, clampEnd_getD h le_rfl (by omega), slicePlaces,
      if_neg up, places_down_eq _ _ _ (by omega)]

/-! Two sequences that are the same. -/

theorem sameItems_iff {same : π → π → Bool} {items others : List π} :
    sameItems same items others = true ↔ List.Forall₂ (fun p q => same p q = true) items others := by
  induction items generalizing others with
  | nil => cases others <;> simp [sameItems]
  | cons p items ih =>
    cases others with
    | nil => simp [sameItems]
    | cons q others => simp [sameItems, ih]

end Toolpath.History
