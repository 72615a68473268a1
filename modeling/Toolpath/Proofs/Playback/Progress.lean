import Mathlib
import Toolpath.Proofs.Gcode.Outcome
import Toolpath.Proofs.Numeric.Length
import Toolpath.Proofs.Numeric.Spacing
import Toolpath.Proofs.Playback.Listening

/-! A run goes on. With the usual divisor and factor a step is at least 5/128 long, and the longer side of
a move takes a quarter of it or more; as long as no coordinate reaches 2^48 that is enough to leave the
double that the tool is at. Further out a tick may do nothing: a move between finite points can be
infinitely long. -/
namespace Toolpath
open Binary64

/-- A finite coordinate of less than 2^48. -/
structure Moderate (x : Float) : Prop where
  finite : isFinite x = true
  below : |value x| < 2 ^ 48

/-- A finite coordinate of at most 2^48. -/
structure Within (x : Float) : Prop where
  finite : isFinite x = true
  bounded : |value x| ≤ 2 ^ 48

/-- Moves between moderate coordinates. -/
def Confined (moves : List (Move Float)) : Prop := ∀ move ∈ moves, Moderate move.x ∧ Moderate move.y

section
variable {x y ratio : Float}

/-- The difference of a coordinate to a target is off by 1/32 at most. -/
theorem difference_close (tool : Within x) (target : Moderate y) :
    isFinite (y - x) = true ∧ |value (y - x)| ≤ 2 ^ 49 ∧
      |value (y - x) - (value y - value x)| ≤ 1 / 32 := by
  obtain ⟨low, high⟩ := abs_le.mp tool.bounded
  obtain ⟨least, greatest⟩ := abs_lt.mp target.below
  have bounded : |value y - value x| ≤ 2 ^ 49 := abs_le.mpr ⟨by linarith, by linarith⟩
  obtain ⟨z, finite, bound⟩ := exists_bound (by decide) bounded
  have rounds := sub_rounds target.finite tool.finite finite bound
  exact ⟨rounds.finite, rounds.abs_le_power (by decide) bounded, rounds.within bounded⟩

/-- A part of a difference lies between zero and all of it, and is no less than a share of 9/512. -/
theorem part_between {difference : Float} (finite : isFinite difference = true)
    (finiteRatio : isFinite ratio = true) (nonnegative : 0 ≤ value ratio) (whole : value ratio ≤ 1) :
    isFinite (difference * ratio) = true ∧
      (0 ≤ value (difference * ratio) ∧ value (difference * ratio) ≤ value difference ∨
        value difference ≤ value (difference * ratio) ∧ value (difference * ratio) ≤ 0) ∧
      (9 / 512 ≤ |value difference| * value ratio → 9 / 512 ≤ |value (difference * ratio)|) := by
  have part : |value difference * value ratio| ≤ |value difference| := by
    rw [abs_mul, abs_of_nonneg nonnegative]
    exact mul_le_of_le_one_right (abs_nonneg _) whole
  have rounds := mul_rounds finite finiteRatio finite part
  refine ⟨rounds.finite, ?_, ?_⟩
  · rcases le_total 0 (value difference) with forward | backward
    · left
      constructor
      · exact rounds.nonneg (mul_nonneg forward nonnegative)
      · exact rounds.le finite (mul_le_of_le_one_right forward whole)
    · right
      constructor
      · exact rounds.ge finite (le_mul_of_le_one_right backward whole)
      · exact rounds.nonpos (mul_nonpos_of_nonpos_of_nonneg backward nonnegative)
  · intro share
    have ninth : (9 : ℤ) * (2 : ℚ) ^ (-9 : ℤ) = 9 / 512 := by norm_num
    have kept := rounds.double_le_abs (by decide : |(9 : ℤ)| ≤ 2 ^ 53)
      (by decide : (-1074 : ℤ) ≤ -9) (by decide)
    rw [ninth, abs_mul, abs_of_nonneg nonnegative] at kept
    exact kept share

/-- A part of the way leaves the tool within its bounds, and at another coordinate if the part is large
enough. -/
theorem lerp_within (tool : Within x) (target : Moderate y) (finite : isFinite ratio = true)
    (nonnegative : 0 ≤ value ratio) (whole : value ratio ≤ 1) :
    Within (x + (y - x) * ratio) ∧
      (9 / 512 ≤ |value (y - x)| * value ratio → value (x + (y - x) * ratio) ≠ value x) := by
  obtain ⟨finiteDifference, size, close⟩ := difference_close tool target
  obtain ⟨finitePart, between, share⟩ := part_between finiteDifference finite nonnegative whole
  obtain ⟨low, high⟩ := abs_le.mp tool.bounded
  obtain ⟨least, greatest⟩ := abs_le.mp (abs_value_of_lt target.finite target.below)
  obtain ⟨under, upper⟩ := abs_le.mp close
  have inside : |value x + value ((y - x) * ratio)| ≤ 2 ^ 48 := by
    rw [abs_le]
    rcases between with ⟨first, last⟩ | ⟨first, last⟩
    · constructor <;> linarith
    · constructor <;> linarith
  obtain ⟨z, finiteZ, bound⟩ := exists_bound (by decide) inside
  have rounds := add_rounds tool.finite finitePart finiteZ bound
  constructor
  · exact ⟨rounds.finite, rounds.abs_le_power (by decide) inside⟩
  · intro large
    exact rounds.leaves (lt_of_lt_of_le (by norm_num) (share large)) tool.bounded inside

end

/-! One step. -/

theorem value_of_units {x : Float} {n : Nat} (decoded : ofFloat x = .finite false (n * oneUnits)) :
    isFinite x = true ∧ value x = n := by
  refine ⟨isFinite_iff.mpr ⟨_, _, decoded⟩, ?_⟩
  rw [value_eq decoded, signedUnits, if_neg Bool.false_ne_true]
  push_cast
  exact mul_div_cancel_right₀ _ oneUnits_cast_pos.ne'

/-- A linear step is a 25th of the speed long, up to its rounding. -/
theorem linearLength_bounds {percentage : Int} (low : 1 ≤ percentage) (high : percentage ≤ 100) :
    isFinite (ofInt percentage / 25) = true ∧ 5 / 128 ≤ value (ofInt percentage / 25) ∧
      value (ofInt percentage / 25) ≤ 4 := by
  obtain ⟨finiteDivisor, divisor⟩ := @value_of_units 25 25 (by decide)
  obtain ⟨finiteSpeed, speed⟩ := value_ofInt (abs_le.mpr ⟨by omega, by omega⟩ : |percentage| ≤ 2 ^ 53)
  have low : (1 : ℚ) ≤ percentage := by exact_mod_cast low
  have high : (percentage : ℚ) ≤ 100 := by exact_mod_cast high
  have bounded : |(percentage : ℚ) / 25| ≤ 2 ^ 2 := by
    rw [abs_of_nonneg (by positivity)]
    linarith
  obtain ⟨four, finiteFour, bound⟩ := exists_bound (by decide) bounded
  have rounds : Rounds (percentage / 25) (ofInt percentage / 25) := by
    have quotient : value (ofInt percentage) / value 25 = percentage / 25 := by
      rw [speed, divisor, Nat.cast_ofNat]
    have exact := div_rounds finiteSpeed finiteDivisor finiteFour (by rw [divisor]; norm_num)
      (quotient ▸ bound)
    rwa [quotient] at exact
  have place : ((5 : ℤ) : ℚ) * 2 ^ (-7 : ℤ) = 5 / 128 := by norm_num
  have least := rounds.double_le (by decide : |(5 : ℤ)| ≤ 2 ^ 53) (by decide : (-1074 : ℤ) ≤ -7)
    (by decide) (by rw [place]; linarith)
  have most := (abs_le.mp (rounds.abs_le_power (by decide) bounded)).2
  rw [place] at least
  exact ⟨rounds.finite, least, by linarith⟩

/-- A rapid step is three times as long. -/
theorem le_rapidLength {length : Float} (finite : isFinite length = true)
    (low : 5 / 128 ≤ value length) (high : value length ≤ 4) :
    isFinite (length * 3) = true ∧ 5 / 128 ≤ value (length * 3) := by
  obtain ⟨finiteFactor, factor⟩ := @value_of_units 3 3 (by decide)
  rw [Nat.cast_ofNat] at factor
  have bounded : |value length * value 3| ≤ 2 ^ 4 := by
    rw [factor, abs_of_nonneg (by linarith)]
    linarith
  obtain ⟨sixteen, finiteSixteen, bound⟩ := exists_bound (by decide) bounded
  have rounds := mul_rounds finite finiteFactor finiteSixteen bound
  exact ⟨rounds.finite, low.trans (rounds.ge finite (by rw [factor]; linarith))⟩

/-- With the usual divisor and factor no step is short. -/
theorem le_stepLength {percentage : Int} (least : Engine.minSpeed ≤ percentage)
    (most : percentage ≤ Engine.maxSpeed) (kind : MoveKind) :
    ∃ length, (⟨Scalar.ofInt percentage, 25, 3⟩ : Pace Float).stepLength kind = .ok length ∧
      isFinite length = true ∧ 5 / 128 ≤ value length := by
  obtain ⟨finite, low, high⟩ := linearLength_bounds least most
  have nonzero : ¬ Scalar.same (25 : Float) Scalar.zero = true := by decide
  have quotient : Scalar.quotient (Scalar.ofInt percentage) (25 : Float) = .ok (ofInt percentage / 25) :=
    if_neg nonzero
  cases kind with
  | linear =>
    refine ⟨_, ?_, finite, low⟩
    rw [Pace.stepLength, quotient]
    rfl
  | rapid =>
    refine ⟨_, ?_, le_rapidLength finite low high⟩
    rw [Pace.stepLength, quotient]
    rfl

/-- The part of a way that a step is. -/
theorem ratio_bounds {length remaining : Float} (finiteLength : isFinite length = true)
    (finiteRemaining : isFinite remaining = true) (least : 5 / 128 ≤ value length)
    (le : value length ≤ value remaining) (most : value remaining ≤ 2 ^ 50) :
    isFinite (length / remaining) = true ∧ 0 ≤ value (length / remaining) ∧
      value (length / remaining) ≤ 1 ∧
      (1 - 1 / 2 ^ 52) * (value length / value remaining) ≤ value (length / remaining) := by
  obtain ⟨one, finiteOne, power⟩ := exists_power (by decide : 0 ≤ 970)
  rw [pow_zero] at power
  have positive : 0 < value remaining := by linarith
  have whole : value length / value remaining ≤ 1 := (div_le_one positive).mpr le
  have part : (2 : ℚ) ^ (-100 : ℤ) ≤ value length / value remaining := by
    have scaled : (2 : ℚ) ^ (-100 : ℤ) * value remaining ≤ 2 ^ (-100 : ℤ) * 2 ^ 50 :=
      mul_le_mul_of_nonneg_left most (zpow_pos two_pos _).le
    rw [le_div_iff₀ positive]
    refine scaled.trans (le_trans ?_ least)
    norm_num
  have rounds := div_rounds finiteLength finiteRemaining finiteOne positive.ne' (by
    rw [power, abs_one, abs_of_nonneg (div_nonneg (by linarith) positive.le)]
    exact whole)
  have kept := rounds.relative part whole
  refine ⟨rounds.finite, ?_, ?_, kept⟩
  · exact (mul_nonneg (by norm_num) (div_nonneg (by linarith) positive.le)).trans kept
  · rw [← power]
    exact rounds.le finiteOne (power ▸ whole)

/-- The longer side of a move takes enough of a step to be seen. -/
theorem longer_share {side length remaining ratio : ℚ} (least : 5 / 128 ≤ length) (le : length ≤ remaining)
    (most : remaining ≤ 2 * side) (kept : (1 - 1 / 2 ^ 52) * (length / remaining) ≤ ratio) :
    9 / 512 ≤ side * ratio := by
  have positive : 0 < remaining := by linarith
  have half : 1 / 2 ≤ side / remaining := by
    rw [le_div_iff₀ positive]
    linarith
  calc (9 / 512 : ℚ) ≤ (1 - 1 / 2 ^ 52) * (1 / 2 * length) := by
        norm_num
        linarith
    _ ≤ (1 - 1 / 2 ^ 52) * (side / remaining * length) :=
        mul_le_mul_of_nonneg_left (mul_le_mul_of_nonneg_right half (by linarith)) (by norm_num)
    _ = side * ((1 - 1 / 2 ^ 52) * (length / remaining)) := by ring
    _ ≤ side * ratio := mul_le_mul_of_nonneg_left kept (by linarith)

namespace PlaybackState
variable {s t : PlaybackState Float} {percentage : Int}

/-- One move further, or with the tool at another point than before. -/
def GetsOn (s t : PlaybackState Float) : Prop :=
  t.index = s.index + 1 ∨ t.index = s.index ∧ ¬ ((t.x == s.x) = true ∧ (t.y == s.y) = true)

section
variable {target : Move Float} (toolX : Within s.x) (toolY : Within s.y) (targetX : Moderate target.x)
  (targetY : Moderate target.y)
include toolX toolY targetX targetY

/-- The way that remains is finite, and at most twice as long as its longer side. -/
theorem remaining_bounds : isFinite (s.remaining target) = true ∧
    value (s.remaining target) ≤ 2 * max |value (target.x - s.x)| |value (target.y - s.y)| ∧
      value (s.remaining target) ≤ 2 ^ 50 := by
  obtain ⟨finiteX, sizeX, -⟩ := difference_close toolX targetX
  obtain ⟨finiteY, sizeY, -⟩ := difference_close toolY targetY
  have longer := max_le sizeX sizeY
  obtain ⟨room, finiteRoom, power⟩ := exists_power (by decide : 50 ≤ 970)
  obtain ⟨finite, twice⟩ := hypot_le finiteX finiteY finiteRoom (by rw [power]; linarith)
  exact ⟨finite, twice, le_trans twice (by linarith)⟩

/-- A part of the way that is a visible share of its longer side leads to another point. -/
theorem lerp_apart {ratio : Float} (finite : isFinite ratio = true) (nonnegative : 0 ≤ value ratio)
    (whole : value ratio ≤ 1)
    (share : 9 / 512 ≤ max |value (target.x - s.x)| |value (target.y - s.y)| * value ratio) :
    Within (s.x + (target.x - s.x) * ratio) ∧ Within (s.y + (target.y - s.y) * ratio) ∧
      ¬ ((s.x + (target.x - s.x) * ratio == s.x) = true ∧
        (s.y + (target.y - s.y) * ratio == s.y) = true) := by
  obtain ⟨withinX, movesX⟩ := lerp_within toolX targetX finite nonnegative whole
  obtain ⟨withinY, movesY⟩ := lerp_within toolY targetY finite nonnegative whole
  refine ⟨withinX, withinY, ?_⟩
  rintro ⟨sameX, sameY⟩
  rw [beq_iff_value withinX.finite toolX.finite] at sameX
  rw [beq_iff_value withinY.finite toolY.finite] at sameY
  rcases max_choice |value (target.x - s.x)| |value (target.y - s.y)| with side | side
  · rw [side] at share
    exact movesX share sameX
  · rw [side] at share
    exact movesY share sameY

/-- A tick towards a moderate target takes the tool there or to another point. -/
theorem approach_progresses (total : Nat) (least : Engine.minSpeed ≤ percentage)
    (most : percentage ≤ Engine.maxSpeed) :
    ∃ t, s.approach target total ⟨Scalar.ofInt percentage, 25, 3⟩ = .ok t ∧
      (t = s.reach target total ∨ ∃ x y, t = { s with x, y } ∧ Within x ∧ Within y ∧
        ¬ ((x == s.x) = true ∧ (y == s.y) = true)) := by
  obtain ⟨length, stepped, finiteLength, shortest⟩ := le_stepLength least most target.kind
  obtain ⟨finiteRemaining, twice, room⟩ := remaining_bounds toolX toolY targetX targetY
  unfold approach
  rw [stepped]
  simp only [bind, Except.bind]
  by_cases arrives : Scalar.lt (s.remaining target) length = true
  · exact ⟨_, if_pos arrives, .inl rfl⟩
  · rw [if_neg arrives]
    have le : value length ≤ value (s.remaining target) := by
      have notLess : ¬ s.remaining target < length := by simpa [Scalar.lt] using arrives
      rwa [lt_iff_value finiteRemaining finiteLength, not_lt] at notLess
    obtain ⟨finiteZero, zero⟩ := value_ofInt (by decide : |(0 : ℤ)| ≤ 2 ^ 53)
    have apart : ¬ Scalar.same (s.remaining target) Scalar.zero = true := by
      intro same
      have values := (beq_iff_value finiteRemaining finiteZero).mp same
      rw [zero, Int.cast_zero] at values
      linarith
    obtain ⟨finiteRatio, nonnegative, whole, kept⟩ :=
      ratio_bounds finiteLength finiteRemaining shortest le room
    have share := longer_share shortest le twice kept
    rw [Scalar.quotient, if_neg apart]
    have moved := lerp_apart toolX toolY targetX targetY finiteRatio nonnegative whole share
    exact ⟨_, rfl, .inr ⟨_, _, rfl, moved⟩⟩

end

end PlaybackState

/-! A whole run. -/

namespace Engine
open PlaybackState Gcode
variable {e d : Engine Float}

/-- A run over moderate moves at the usual pace, with its tool within the bounds. -/
structure Steady (e : Engine Float) : Prop where
  same : e.state.Consistent e.moves
  targets : Confined e.moves
  x : Within e.state.x
  y : Within e.state.y
  speed : minSpeed ≤ e.speed ∧ e.speed ≤ maxSpeed
  pace : e.divisor = 25 ∧ e.rapidFactor = 3

theorem within_zero : Within (Scalar.zero : Float) := by
  obtain ⟨finite, zero⟩ := value_ofInt (by decide : |(0 : ℤ)| ≤ 2 ^ 53)
  refine ⟨finite, ?_⟩
  change |value (ofInt 0)| ≤ _
  rw [zero]
  norm_num

theorem new_steady {moves : List (Move Float)} (speed : Int) (confined : Confined moves) :
    (new moves speed 25 3).Steady where
  same := new_consistent
  targets := confined
  x := within_zero
  y := within_zero
  speed := clampSpeed_bounds speed
  pace := ⟨rfl, rfl⟩

/-- A tick of a steady run completes a move or moves the tool. -/
theorem Steady.step (steady : e.Steady) (running : e.state.status = .running) :
    ∃ t, e.state.step e.moves e.pace = .ok t ∧ Within t.x ∧ Within t.y ∧ e.state.GetsOn t := by
  obtain ⟨target, next, eq⟩ := @Consistent.step_eq _ _ _ _ e.pace _ steady.same running
  obtain ⟨targetX, targetY⟩ := steady.targets target (List.mem_of_getElem? next)
  have pace : e.pace = ⟨Scalar.ofInt e.speed, 25, 3⟩ := by rw [Engine.pace, steady.pace.1, steady.pace.2]
  obtain ⟨t, approached, arrived | ⟨x, y, rfl, withinX, withinY, apart⟩⟩ :=
    approach_progresses steady.x steady.y targetX targetY e.moves.length steady.speed.1 steady.speed.2
  · refine ⟨t, by rw [eq, pace, approached], ?_, ?_, .inl ?_⟩
    · rw [arrived]
      exact ⟨targetX.finite, targetX.below.le⟩
    · rw [arrived]
      exact ⟨targetY.finite, targetY.below.le⟩
    · rw [arrived]
      rfl
  · exact ⟨{ e.state with x, y }, by rw [eq, pace, approached], withinX, withinY, .inr ⟨rfl, apart⟩⟩

/-- Every turn of a run keeps it steady, loading moderate moves included. -/
theorem Takes.steady {turn : Turn Float} (takes : Takes e turn d) (steady : e.Steady)
    (confined : ∀ moves, turn = .load moves → Confined moves) : d.Steady := by
  obtain ⟨same, targets, x, y, speed, pace⟩ := steady
  cases takes with
  | load moves =>
    exact ⟨initial_consistent moves, confined moves rfl, within_zero, within_zero, speed, pace⟩
  | reset => exact ⟨initial_consistent e.moves, targets, within_zero, within_zero, speed, pace⟩
  | start filled _ => exact ⟨started_consistent filled, targets, within_zero, within_zero, speed, pace⟩
  | resume paused =>
    exact ⟨same.withStatus (.inl rfl) (same.unfinished (.inr paused)), targets, x, y, speed, pace⟩
  | pause running =>
    exact ⟨same.withStatus (.inr rfl) (same.unfinished (.inl running)), targets, x, y, speed, pace⟩
  | tick running stepped =>
    obtain ⟨t, ticked, withinX, withinY, _⟩ := Steady.step ⟨same, targets, x, y, speed, pace⟩ running
    rw [stepped] at ticked
    cases ticked
    exact ⟨step_consistent same stepped, targets, withinX, withinY, speed, pace⟩
  | setSpeed percentage => exact ⟨same, targets, x, y, clampSpeed_bounds percentage, pace⟩
  | addListener _ | removeListener _ => exact ⟨same, targets, x, y, speed, pace⟩

theorem Trail.steady {trail : List (Turn Float × Engine Float)} (path : Trail e trail d)
    (steady : e.Steady) (confined : ∀ moves, .load moves ∈ trail.map (·.1) → Confined moves) :
    d.Steady := by
  induction path with
  | nil e => exact steady
  | cons takes later ih =>
    apply ih
    · apply takes.steady steady
      rintro moves rfl
      exact confined moves List.mem_cons_self
    · intro moves member
      exact confined moves (List.mem_cons_of_mem _ member)

/-- Nothing but a request to load loads anything. -/
theorem Request.Comprises.load {request : Request Float} {turns : List (Turn Float)}
    {moves : List (Move Float)} (comprises : request.Comprises turns) (member : .load moves ∈ turns) :
    request = .perform (.load moves) := by
  have once (usual : turns = [] ∨ ∃ turn ∈ request.turns, turns = [turn]) :
      .load moves ∈ request.turns := by
    rcases usual with rfl | ⟨turn, among, rfl⟩
    · cases member
    · rwa [List.mem_singleton.mp member]
  cases request with
  | perform operation =>
    cases operation with
    | runToCompletion maxSteps =>
      obtain ⟨begun, ticks, _, begins, rfl⟩ := comprises
      rcases List.mem_append.mp member with start | tick
      · rcases begins with rfl | rfl | rfl <;> simp at start
      · cases List.eq_of_mem_replicate tick
    | load other =>
      cases List.mem_singleton.mp (once comprises)
      rfl
    | _ => simpa [Request.turns] using once comprises
  | addListener _ | removeListener _ => simpa [Request.turns] using once comprises

theorem performAll_steady (steady : e.Steady) {operations : List (Operation Float)}
    (confined : ∀ moves, .load moves ∈ operations → Confined moves) :
    (e.performAll operations).Steady := by
  induction operations generalizing e with
  | nil => exact steady
  | cons operation rest ih =>
    apply ih
    · obtain ⟨trail, path, comprises, _⟩ := ask_follows e (.perform operation)
      apply path.steady steady
      intro moves member
      have loads := comprises.load member
      cases loads
      exact confined moves List.mem_cons_self
    · intro moves member
      exact confined moves (List.mem_cons_of_mem _ member)

/-- Coordinates of less than 2^48. -/
def Bounded (moves : List (Move Float)) : Prop :=
  ∀ move ∈ moves, |value move.x| < 2 ^ 48 ∧ |value move.y| < 2 ^ 48

instance (moves : List (Move Float)) : Decidable (Bounded moves) :=
  inferInstanceAs (Decidable (∀ move ∈ moves, _ ∧ _))

/-- What a program reads as is finite anyway. -/
theorem Bounded.confined {text : List Char} (bounded : Bounded (Program.parse text).moves) :
    Confined (Program.parse text).moves := by
  intro move member
  obtain ⟨finiteX, finiteY⟩ := (finite_of_mem_moves member).target
  obtain ⟨belowX, belowY⟩ := bounded move member
  exact ⟨⟨finiteX, belowX⟩, ⟨finiteY, belowY⟩⟩

/-- A run of a program goes on as long as all its coordinates are less than 2^48: in every state that is
running a tick has no fault, and it completes a move or takes the tool to another point. -/
theorem step_progresses (text : List Char) (speed : Int) (operations : List (Operation Float))
    (bounded : Bounded (Program.parse text).moves)
    (loads : ∀ moves, .load moves ∈ operations →
      ∃ other, moves = (Program.parse other).moves ∧ Bounded moves) :
    let e := (new (Program.parse text).moves speed 25 3).performAll operations
    e.state.status = .running → e.step.result = .ok () ∧ e.state.GetsOn e.step.state.state := by
  intro e running
  have steady : e.Steady := by
    apply performAll_steady (new_steady speed bounded.confined)
    intro moves member
    obtain ⟨other, rfl, bounded⟩ := loads moves member
    exact bounded.confined
  obtain ⟨t, stepped, _, _, progress⟩ := steady.step running
  have taken : e.step = e.enter t () := by
    rw [Engine.step, if_pos (isRunning_iff.mpr running), stepped]
  rw [taken]
  exact ⟨rfl, progress⟩

theorem step_progresses_outward :
    let text := "G1 X10 Y-20 F100".toList
    let e := (new (Program.parse text).moves 50 25 3).performAll [.start, .step]
    Bounded (Program.parse text).moves ∧ e.state.status = .running ∧
      e.step.result = .ok () ∧ e.state.GetsOn e.step.state.state := by
  intro text e
  have bounded : Bounded (Program.parse text).moves := by decide +kernel
  have running : e.state.status = .running := by decide +kernel
  exact ⟨bounded, running, step_progresses text 50 [.start, .step] bounded (by simp) running⟩

/-- The length of a move with such sides is infinite, and the tool stays where it is. -/
theorem far_corner_freezes :
    let far := "17".toList ++ List.replicate 307 '0'
    let text := "G1 X".toList ++ far ++ " Y".toList ++ far
    let e := (new (Program.parse text).moves 50 25 3).performAll [.start]
    (Program.parse text).diagnostics = [] ∧ e.state.status = .running ∧ e.step.result.isOk = true ∧
      e.step.state.state.index = e.state.index ∧ (e.step.state.state.x == e.state.x) = true ∧
        (e.step.state.state.y == e.state.y) = true := by
  decide +kernel

end Engine

end Toolpath
