import Mathlib
import Toolpath.Proofs.Drawing.Lowering
import Toolpath.Proofs.Drawing.Tessellation
import Toolpath.Proofs.Gcode.Coordinates
import Toolpath.Proofs.Numeric.Results

/-! Where a compiled circle ends. Its last angle is a full turn, give or take a bit, and there the
cosine is one but the sine a little less than zero. So the words for x are those of the start, and the
words for y are those of the start unless a number halfway between two decimals lies between the two. -/
namespace Toolpath

namespace Planar
open Binary64
open Drawing.CompilerConfig (bind_ok)

/-! The angle after the last segment. -/

def fullTurnCode : Nat := codeOfFloat fullTurn

/-- A full turn and the doubles next to it. -/
def aroundFullTurn : List Float := [fullTurnCode - 1, fullTurnCode, fullTurnCode + 1].map (ofCode false)

/-- A finite double of no more than 2^-48 in size. -/
def Slight (x : Float) : Prop := isFinite x = true ∧ unitsOfCode (codeOfFloat x) * 2 ^ 48 ≤ oneUnits

instance (x : Float) : Decidable (Slight x) := inferInstanceAs (Decidable (_ ∧ _))

theorem Slight.value_le {x : Float} (slight : Slight x) : |value x| ≤ 1 / 2 ^ 48 := by
  obtain ⟨finite, small⟩ := slight
  obtain ⟨negative, code, below, rfl⟩ := exists_ofCode finite
  rw [codeOfFloat_ofCode _ below.le] at small
  rw [abs_value (ofFloat_ofCode negative below), div_le_div_iff₀ oneUnits_cast_pos (by positivity),
    one_mul]
  exact_mod_cast small

/-- The sines are those of the doubles that a turn of radians is rounded to. -/
theorem around_fullTurn : ∀ angle ∈ aroundFullTurn,
    Circular.cosineDegrees angle = .ok (ofInt 1) ∧
      (Circular.sineDegrees angle).map (fun s => decide (Slight s)) = .ok true := by
  decide +kernel

theorem at_zero : Circular.cosineDegrees 0 = .ok (ofInt 1) ∧ Circular.sineDegrees 0 = .ok (ofInt 0) := by
  decide

theorem value_positive {code : Nat} (below : code < infinityCode) :
    value (ofCode false code) = unitsOfCode code / oneUnits := by
  rw [value_ofCode false below, signedUnits, if_neg Bool.false_ne_true, Int.cast_natCast]

theorem value_mono {a b : Nat} (le : a ≤ b) (below : b < infinityCode) :
    value (ofCode false a) ≤ value (ofCode false b) := by
  rw [value_positive below, value_positive (le.trans_lt below),
    div_le_div_iff_of_pos_right oneUnits_cast_pos]
  exact_mod_cast unitsOfCode_mono le

theorem beside_fullTurn : value (ofCode false (fullTurnCode - 2)) = 360 - 2 / 2 ^ 44 ∧
    value (ofCode false (fullTurnCode + 2)) = 360 + 2 / 2 ^ 44 := by
  have lower : unitsOfCode (fullTurnCode - 2) * 2 ^ 43 = (360 * 2 ^ 43 - 1) * oneUnits := by
    decide
  have upper : unitsOfCode (fullTurnCode + 2) * 2 ^ 43 = (360 * 2 ^ 43 + 1) * oneUnits := by
    decide
  have one := oneUnits_cast_pos
  rw [value_positive (by decide), value_positive (by decide)]
  generalize unitsOfCode (fullTurnCode - 2) = a at *
  generalize unitsOfCode (fullTurnCode + 2) = b at *
  generalize oneUnits = unit at *
  have lower : (a * 2 ^ 43 : ℚ) = (360 * 2 ^ 43 - 1) * unit := by
    norm_num at lower ⊢
    exact_mod_cast lower
  have upper : (b * 2 ^ 43 : ℚ) = (360 * 2 ^ 43 + 1) * unit := by exact_mod_cast upper
  constructor
  · rw [div_eq_iff one.ne']
    linarith
  · rw [div_eq_iff one.ne']
    linarith

/-- There are only three doubles near a full turn. -/
theorem mem_aroundFullTurn {angle : Float} (finite : isFinite angle = true)
    (near : |value angle - 360| < 2 / 2 ^ 44) : angle ∈ aroundFullTurn := by
  obtain ⟨low, high⟩ := abs_lt.mp near
  obtain ⟨before, behind⟩ := beside_fullTurn
  obtain ⟨negative, code, below, rfl⟩ := exists_ofCode finite
  have positive : negative = false := by
    by_contra minus
    rw [Bool.not_eq_false] at minus
    have nonpositive : value (ofCode negative code) ≤ 0 := by
      rw [value_ofCode negative below, minus, signedUnits, if_pos rfl, Int.cast_neg, Int.cast_natCast]
      exact div_nonpos_of_nonpos_of_nonneg (neg_nonpos.mpr (Nat.cast_nonneg _)) oneUnits_cast_pos.le
    linarith
  subst positive
  have first : fullTurnCode - 2 < code := by
    by_contra less
    have := value_mono (not_lt.mp less) (by decide)
    linarith
  have last : code < fullTurnCode + 2 := by
    by_contra more
    have := value_mono (not_lt.mp more) below
    linarith
  have codes : code = fullTurnCode - 1 ∨ code = fullTurnCode ∨ code = fullTurnCode + 1 := by omega
  rcases codes with rfl | rfl | rfl <;> simp [aroundFullTurn]

theorem one_le_count {n : ℤ} (positive : 1 ≤ n) (finite : isFinite (ofInt n) = true) :
    1 ≤ value (ofInt n) := by
  obtain ⟨finiteOne, one⟩ := value_ofInt (by decide : |(1 : ℤ)| ≤ 2 ^ 53)
  rw [Int.cast_one] at one
  rw [← one]
  refine ((ofInt_nearest n).rounds finite).ge finiteOne ?_
  rw [one]
  exact_mod_cast positive

/-- Neither operation loses more than one part in 2^53. -/
theorem closing_angle {n : ℤ} (positive : 1 ≤ n)
    (finite : isFinite (fullTurn * ofInt n / ofInt n) = true) :
    fullTurn * ofInt n / ofInt n ∈ aroundFullTurn := by
  have finiteTurn : isFinite fullTurn = true := (value_ofInt (by decide : |(360 : ℤ)| ≤ 2 ^ 53)).1
  have turn : value fullTurn = 360 := (value_ofInt (by decide : |(360 : ℤ)| ≤ 2 ^ 53)).2
  have finiteP := isFinite_of_div finite
  have finiteN := (isFinite_of_mul finiteP).2
  have count := one_le_count positive finiteN
  have nonzero : value (ofInt n) ≠ 0 := by linarith
  have large : (2 : ℚ) ^ 52 ≤ oneUnits := by
    rw [oneUnits_eq]
    push_cast
    exact pow_le_pow_right₀ one_le_two (by decide)
  have normal {q : ℚ} (size : 1 ≤ |q|) : 2 ^ 52 ≤ |q| * oneUnits :=
    large.trans (le_mul_of_one_le_left (by linarith) size)
  have product := mul_nearest finiteTurn finiteN
  have quotient := div_nearest finiteP finiteN nonzero
  rw [turn] at product
  have whole : |360 * value (ofInt n)| = 360 * value (ofInt n) := abs_of_nonneg (by linarith)
  have lost := product.relative finiteP (normal (by linarith))
  rw [whole] at lost
  -- divided by the count, what the product lost is a part of one turn
  have turned : |value (fullTurn * ofInt n) / value (ofInt n) - 360| ≤ 360 / 2 ^ 53 := by
    have same : value (fullTurn * ofInt n) / value (ofInt n) - 360 =
        (value (fullTurn * ofInt n) - 360 * value (ofInt n)) / value (ofInt n) := by
      rw [sub_div, mul_div_cancel_right₀ _ nonzero]
    rw [same, abs_div, abs_of_nonneg (by linarith : 0 ≤ value (ofInt n)), div_le_iff₀ (by linarith)]
    linarith
  have size : |value (fullTurn * ofInt n) / value (ofInt n)| ≤ 361 := by
    rw [abs_le] at turned ⊢
    constructor <;> linarith
  have lost := quotient.relative finite (normal (by
    rw [abs_le] at turned
    exact (by linarith : (1 : ℚ) ≤ _).trans (le_abs_self _)))
  refine mem_aroundFullTurn finite ?_
  have path := abs_sub_le (value (fullTurn * ofInt n / ofInt n))
    (value (fullTurn * ofInt n) / value (ofInt n)) 360
  refine path.trans_lt ?_
  calc _ ≤ 361 / 2 ^ 53 + 360 / 2 ^ 53 := add_le_add (lost.trans (by linarith)) turned
    _ < 2 / 2 ^ 44 := by norm_num

/-! The first and the last point. -/

variable {cx cy r : Float} {angle : Float} {p start : Float × Float} {path : List (Float × Float)} {n : ℤ}

theorem finite_angle {c : Float} (cosine : Circular.cosine angle = .ok c) (finite : isFinite c = true) :
    isFinite angle = true := by
  unfold Circular.cosine at cosine
  split at cosine
  · cases cosine
    rw [show isFinite nanValue = false by decide] at finite
    cases finite
  · cases cosine
  · rename_i decoded
    exact isFinite_iff.mpr ⟨_, _, decoded⟩

theorem pointOnCircle_parts (found : pointOnCircle cx cy r angle = .ok p) : ∃ c s,
    Circular.cosineDegrees angle = .ok c ∧ Circular.sineDegrees angle = .ok s ∧
      p = (cx + r * c, cy + r * s) := by
  obtain ⟨c, cosine, found⟩ := bind_ok found
  obtain ⟨s, sine, found⟩ := bind_ok found
  cases found
  exact ⟨c, s, cosine, sine, rfl⟩

theorem pointOnCircle_zero (found : pointOnCircle cx cy r 0 = .ok p) :
    p = (cx + r * ofInt 1, cy + r * ofInt 0) := by
  obtain ⟨c, s, cosine, sine, same⟩ := pointOnCircle_parts found
  rw [at_zero.1] at cosine
  rw [at_zero.2] at sine
  cases cosine
  cases sine
  exact same

/-- A finite point after all segments has the x of the start, and a y that is off by next to nothing. -/
theorem pointOnCircle_closing (positive : 1 ≤ n)
    (found : pointOnCircle cx cy r (fullTurn * ofInt n / ofInt n) = .ok p)
    (finite : Drawing.FinitePoint p) :
    p.1 = cx + r * ofInt 1 ∧ |value p.2 - value cy| ≤ |value r| / 2 ^ 46 := by
  obtain ⟨c, s, cosine, sine, rfl⟩ := pointOnCircle_parts found
  have finiteC := (isFinite_of_mul (isFinite_of_add finite.1).2).2
  have turned := closing_angle positive (isFinite_of_mul (finite_angle cosine finiteC)).1
  obtain ⟨one, slight⟩ := around_fullTurn _ turned
  rw [one] at cosine
  rw [sine] at slight
  cases cosine
  have slight : Slight s := of_decide_eq_true (Except.ok.inj slight)
  refine ⟨rfl, (offset_near finite.2).trans ?_⟩
  rw [abs_mul]
  have := mul_le_mul_of_nonneg_left slight.value_le (abs_nonneg (value r))
  linarith

theorem getLast?_mapM {α β : Type} {f : α → Except Fault β} {as : List α} {a : α} {bs : List β}
    (done : (as ++ [a]).mapM f = .ok bs) : ∃ b, f a = .ok b ∧ bs.getLast? = some b := by
  rw [List.mapM_append] at done
  obtain ⟨front, _, done⟩ := bind_ok done
  obtain ⟨back, last, done⟩ := bind_ok done
  rw [List.mapM_cons] at last
  obtain ⟨b, found, last⟩ := bind_ok last
  cases last
  cases done
  exact ⟨b, found, List.getLast?_concat⟩

theorem circlePoints_getLast? (positive : 1 ≤ n) (done : circlePoints cx cy r n = .ok path) :
    ∃ stop, path.getLast? = some stop ∧
      pointOnCircle cx cy r (fullTurn * ofInt n / ofInt n) = .ok stop := by
  obtain ⟨k, rfl⟩ : ∃ k : Nat, n = k + 1 := ⟨(n - 1).toNat, by omega⟩
  rw [circlePoints, alongSegments, if_neg (by omega)] at done
  obtain ⟨_, _, done⟩ := bind_ok done
  rw [show ((k + 1 : ℤ)).toNat = k + 1 by omega, List.range_succ] at done
  obtain ⟨stop, found, last⟩ := getLast?_mapM done
  exact ⟨stop, last, found⟩

end Planar

namespace Drawing.CompilerConfig
open Binary64 Gcode Planar

variable {config : CompilerConfig} {cx cy r : Float} {start stop : Float × Float}
  {path : List (Float × Float)}

/-! In writing. -/

/-- The lines of a circle hold a rapid move to its start and end with a feed, both to the same x; the
words for y are `y` and `y'`. -/
structure Circuit (config : CompilerConfig) (lines : List (List Char)) (x y y' : List Char) : Prop where
  rapid : lines[2]? = some ("G0 X".toList ++ x ++ " Y".toList ++ y)
  feed : lines.getLast? =
    some ("G1 X".toList ++ x ++ " Y".toList ++ y' ++ " F".toList ++ constant config.feedRate)

theorem stroke_circuit (places : Nat) (title : List Char) (last : path.getLast? = some stop)
    (same : stop.1 = start.1) :
    Circuit config (config.stroke places title start path) (coordinate places start.1)
      (coordinate places start.2) (coordinate places stop.2) where
  rapid := by simp [stroke, pointWords]
  feed := by
    rw [stroke, List.getLast?_append, List.getLast?_map, last]
    simp [pointWords, same]

/-- Numbers round alike that are nearer to each other than to what lies halfway between two decimals. -/
theorem nearest_apart {q q' bound : ℚ} {places : Nat} {k : ℤ} (near : |q' - q| ≤ bound)
    (apart : ∀ k : ℤ, bound < |q - (k + 1 / 2) / 10 ^ places|) (nearest : NearestEven (q * 10 ^ places) k) :
    NearestEven (q' * 10 ^ places) k := by
  have tens : (0 : ℚ) < 10 ^ places := by positivity
  obtain ⟨low, high⟩ := abs_le.mp (NearestEven.iff_half.mp nearest).1
  obtain ⟨least, most⟩ := abs_le.mp near
  have above : q ≤ (k + 1 / 2) / 10 ^ places := by
    rw [le_div_iff₀ tens]
    linarith
  have below : (k - 1 / 2) / 10 ^ places ≤ q := by
    rw [div_le_iff₀ tens]
    linarith
  have upper := apart k
  have lower := apart (k - 1)
  have previous : ((k - 1 : ℤ) : ℚ) + 1 / 2 = k - 1 / 2 := by
    push_cast
    ring
  rw [abs_of_nonpos (by linarith)] at upper
  rw [previous, abs_of_nonneg (by linarith)] at lower
  have under : q' * 10 ^ places < k + 1 / 2 := by
    rw [← lt_div_iff₀ tens]
    linarith
  have beyond : k - 1 / 2 < q' * 10 ^ places := by
    rw [← div_lt_iff₀ tens]
    linarith
  have inside : |k - q' * 10 ^ places| < 1 / 2 := abs_lt.mpr ⟨by linarith, by linarith⟩
  exact NearestEven.iff_half.mpr ⟨inside.le, fun half => absurd half inside.ne⟩

theorem value_start (begun : pointOnCircle cx cy r 0 = .ok start) (finite : FinitePoint start) :
    start.1 = cx + r * ofInt 1 ∧ isFinite cy = true ∧ value start.2 = value cy := by
  obtain rfl := pointOnCircle_zero begun
  have zero : value (ofInt 0) = 0 := (value_ofInt (by decide : |(0 : ℤ)| ≤ 2 ^ 53)).2
  have near := offset_near finite.2
  rw [zero, mul_zero, abs_zero, mul_zero, abs_nonpos_iff, sub_eq_zero] at near
  exact ⟨rfl, (isFinite_of_add finite.2).1, near⟩

/-- A circle of finite points is compiled, with as many decimals as can be read; with more than can be
asked for it is not. It ends in the x of its start, and as far from the y as a radius times 2^-46. The words for y
are the same exactly if both round to one number, so they are for a center that far away from what lies
halfway between two decimals. -/
theorem compileEntity_circle (positive : 1 ≤ config.circleSegments) (nonnegative : 0 ≤ config.precision)
    (begun : pointOnCircle cx cy r 0 = .ok start)
    (turned : circlePoints cx cy r config.circleSegments = .ok path)
    (finite : ∀ p ∈ start :: path, FinitePoint p) :
    (config.precision ≤ readablePlaces → ∃ lines x y y' stop,
      config.compileEntity (.circle cx cy r) = .ok lines ∧ Circuit config lines x y y' ∧
        path.getLast? = some stop ∧ |value stop.2 - value cy| ≤ |value r| / 2 ^ 46 ∧
        (y = y' ↔ ∃ k : ℤ, NearestEven (value cy * 10 ^ config.precision.toNat) k ∧
          NearestEven (value stop.2 * 10 ^ config.precision.toNat) k) ∧
        ((∀ k : ℤ, |value r| / 2 ^ 46 < |value cy - (k + 1 / 2) / 10 ^ config.precision.toNat|) →
          y = y')) ∧
    (maxPlaces < config.precision →
      config.compileEntity (.circle cx cy r) = .error .unusablePrecision) := by
  have compiled : config.compileEntity (.circle cx cy r) = (places? config.precision).map fun places =>
      config.stroke places (circleTitle places cx cy r) start path := by
    rw [compileEntity, begun]
    change (circlePoints cx cy r config.circleSegments >>= _) = _
    rw [turned]
    cases places? config.precision <;> rfl
  rw [compiled]
  constructor
  · intro readable
    have usable : places? config.precision = .ok config.precision.toNat :=
      if_pos ⟨nonnegative, places_of_readable readable⟩
    obtain ⟨stop, last, found⟩ := circlePoints_getLast? positive turned
    have finiteStart := finite start List.mem_cons_self
    have finiteStop := finite stop (List.mem_cons_of_mem _ (List.mem_of_getLast? last))
    obtain ⟨sameX, near⟩ := pointOnCircle_closing positive found finiteStop
    obtain ⟨startX, finiteY, startY⟩ := value_start begun finiteStart
    have words := coordinate_eq_iff config.precision.toNat finiteStart.2 finiteStop.2
    rw [startY] at words
    refine ⟨_, _, _, _, stop, by rw [usable]; rfl, stroke_circuit _ _ last (sameX.trans startX.symm), last,
      near, words, fun apart => words.mpr ?_⟩
    obtain ⟨k, nearest, _⟩ := coordinate_fixed config.precision.toNat finiteY
    exact ⟨k, nearest, nearest_apart near apart nearest⟩
  · intro beyond
    rw [show places? config.precision = .error .unusablePrecision from if_neg (by omega)]
    rfl

instance (p : Float × Float) : Decidable (FinitePoint p) := inferInstanceAs (Decidable (_ ∧ _))

theorem exists_ok {α : Type} {result : Except Fault α} {P : α → Prop} [DecidablePred P]
    (holds : result.map (fun a => decide (P a)) = .ok true) : ∃ a, result = .ok a ∧ P a := by
  cases result with
  | error fault => cases holds
  | ok a => exact ⟨a, rfl, of_decide_eq_true (Except.ok.inj holds)⟩

/-- Integers are half a last place away from what lies halfway between two decimals. -/
theorem whole_apart (n k : ℤ) (places : Nat) :
    1 / 2 / 10 ^ places ≤ |(n : ℚ) - (k + 1 / 2) / 10 ^ places| := by
  have tens : (0 : ℚ) < 10 ^ places := by positivity
  have odd : (1 : ℚ) ≤ |((2 * (n * 10 ^ places) - (2 * k + 1) : ℤ) : ℚ)| := by
    exact_mod_cast Int.one_le_abs (by omega)
  have scaled : (n : ℚ) - (k + 1 / 2) / 10 ^ places =
      ((2 * (n * 10 ^ places) - (2 * k + 1) : ℤ) : ℚ) / 2 / 10 ^ places := by
    push_cast
    field_simp
  rw [scaled, abs_div, abs_of_pos tens, abs_div, abs_of_pos (two_pos : (0 : ℚ) < 2)]
  gcongr

theorem compileEntity_circle_ten :
    let config := { CompilerConfig.default with circleSegments := 4 }
    ∃ lines x y, config.compileEntity (.circle 10 10 5) = .ok lines ∧ Circuit config lines x y y := by
  intro config
  obtain ⟨start, begun, finiteStart⟩ :=
    @exists_ok _ (pointOnCircle 10 10 5 0) FinitePoint _ (by decide)
  obtain ⟨path, turned, finitePath⟩ :=
    @exists_ok _ (circlePoints 10 10 5 4) (fun path => ∀ p ∈ path, FinitePoint p) _ (by decide +kernel)
  obtain ⟨lines, x, y, y', stop, compiled, circuit, -, -, -, closed⟩ :=
    (compileEntity_circle (by decide : 1 ≤ config.circleSegments) (by decide) begun turned
      (List.forall_mem_cons.mpr ⟨finiteStart, finitePath⟩)).1 (by decide)
  have ten : value 10 = (10 : ℤ) := (value_ofInt (by decide : |(10 : ℤ)| ≤ 2 ^ 53)).2
  have five : value 5 = (5 : ℤ) := (value_ofInt (by decide : |(5 : ℤ)| ≤ 2 ^ 53)).2
  obtain rfl := closed fun k => by
    refine lt_of_lt_of_le ?_ (ten ▸ whole_apart 10 k 3)
    rw [five]
    norm_num
  exact ⟨lines, x, y, compiled, circuit⟩

/-- The center lies half a thousandth off zero, which is written as one thousandth; the end of the circle
lies a little lower and is written as zero. -/
theorem circle_unclosed :
    let config := { CompilerConfig.default with circleSegments := 4 }
    ∃ start path lines, pointOnCircle 0 0.0005 1 0 = .ok start ∧
      circlePoints 0 0.0005 1 config.circleSegments = .ok path ∧ (∀ p ∈ start :: path, FinitePoint p) ∧
      config.compileEntity (.circle 0 0.0005 1) = .ok lines ∧
      lines[2]? = some "G0 X1.000 Y0.001".toList ∧
      lines.getLast? = some "G1 X1.000 Y0.000 F400".toList := by
  intro config
  obtain ⟨start, begun, finiteStart⟩ :=
    @exists_ok _ (pointOnCircle 0 0.0005 1 0) FinitePoint _ (by decide)
  obtain ⟨path, turned, finitePath⟩ :=
    @exists_ok _ (circlePoints 0 0.0005 1 4) (fun path => ∀ p ∈ path, FinitePoint p) _
      (by decide +kernel)
  obtain ⟨lines, compiled, written⟩ :=
    @exists_ok _ (config.compileEntity (.circle 0 0.0005 1)) (fun lines =>
      lines[2]? = some "G0 X1.000 Y0.001".toList ∧
        lines.getLast? = some "G1 X1.000 Y0.000 F400".toList) _ (by decide +kernel)
  exact ⟨start, path, lines, begun, turned, List.forall_mem_cons.mpr ⟨finiteStart, finitePath⟩, compiled,
    written⟩

end Drawing.CompilerConfig

end Toolpath
