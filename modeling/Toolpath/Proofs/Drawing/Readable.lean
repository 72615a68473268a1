import Mathlib
import Toolpath.Config.Resolve
import Toolpath.Proofs.Drawing.Lowering
import Toolpath.Proofs.Drawing.Sections
import Toolpath.Proofs.Drawing.Tessellation
import Toolpath.Proofs.Drawing.Writer
import Toolpath.Proofs.Gcode.Fields

/-! Converting a drawing, whatever its text. What is read of it has finite numbers only, so it
always has outlines and a program, and the program feeds once for each of their points. It is read
without a report exactly if these points are finite too, which finite numbers do not assure. -/
namespace Toolpath

namespace Drawing
open Gcode Binary64

/-! What is read of a drawing. -/

namespace Record

theorem isFinite_number (t : Tag) : isFinite (number t).1 = true := by
  rw [number_eq]
  cases read : Decimal.finite? t.value with
  | none => exact isFinite_zero
  | some x => exact (Decimal.finite?_eq_some_iff.mp read).2

theorem isFinite_numbers (seen : List Int) (tags : List Tag) :
    ∀ v ∈ (numbers seen tags).1, isFinite v.2 = true := by
  induction tags generalizing seen with
  | nil => simp [numbers]
  | cons t tags ih =>
    rw [numbers]
    split
    · exact List.forall_mem_cons.mpr ⟨isFinite_number t, ih _⟩
    · exact ih seen

theorem isFinite_valueOf (tags : List Tag) (code : Int) :
    isFinite (valueOf (numbers [] tags).1 code) = true := by
  unfold valueOf
  cases found : (numbers [] tags).1.lookup code with
  | none => exact isFinite_zero
  | some x =>
    obtain ⟨front, back, whole, -⟩ := List.lookup_eq_some_iff.mp found
    exact isFinite_numbers [] tags (code, x) (by simp [whole])

namespace Outline

/-- The vertices so far. -/
def vertices (o : Outline) : List (Float × Float) := o.points ++ o.last.toList

theorem take_finite {o : Outline} (finite : ∀ p ∈ o.vertices, FinitePoint p) (t : Tag) :
    ∀ p ∈ (o.take t).1.vertices, FinitePoint p := by
  have number := isFinite_number t
  unfold take
  split_ifs
  · change ∀ p ∈ o.vertices ++ [((Record.number t).1, 0)], FinitePoint p
    exact List.forall_mem_append.mpr ⟨finite, List.forall_mem_singleton.mpr ⟨number, isFinite_zero⟩⟩
  · change ∀ p ∈ o.points ++ [((o.last.map (·.1)).getD 0, (Record.number t).1)], FinitePoint p
    obtain ⟨points, last⟩ := List.forall_mem_append.mp finite
    refine List.forall_mem_append.mpr ⟨points, List.forall_mem_singleton.mpr ⟨?_, number⟩⟩
    cases open_ : o.last with
    | none => exact isFinite_zero
    | some p => exact (last p (by simp [open_])).1
  · exact finite
  · exact finite

theorem takeAll_finite {o : Outline} (finite : ∀ p ∈ o.vertices, FinitePoint p) (tags : List Tag) :
    ∀ p ∈ (o.takeAll tags).1.vertices, FinitePoint p := by
  induction tags generalizing o with
  | nil => exact finite
  | cons t tags ih => exact ih (take_finite finite t)

end Outline

theorem line_writable (r : Record) : r.line.1.IsWritable := by
  have finite := isFinite_valueOf r.tags
  simp only [line, required, Entity.IsWritable, List.forall_mem_cons]
  exact ⟨finite 10, finite 20, finite 11, finite 21, by simp⟩

theorem circle_writable (r : Record) : r.circle.1.IsWritable := by
  have finite := isFinite_valueOf r.tags
  simp only [circle, required, Entity.IsWritable, List.forall_mem_cons]
  exact ⟨finite 10, finite 20, finite 40, by simp⟩

theorem arc_writable (r : Record) : r.arc.1.IsWritable := by
  have finite := isFinite_valueOf r.tags
  simp only [arc, required, Entity.IsWritable, List.forall_mem_cons]
  exact ⟨finite 10, finite 20, finite 40, finite 50, finite 51, by simp⟩

theorem lightPolyline_writable (r : Record) : r.lightPolyline.1.IsWritable :=
  Outline.takeAll_finite (o := .empty) (by simp [Outline.vertices, Outline.empty]) r.tags

theorem polyline_writable (r : Record) (vertices : List Record) :
    (r.polyline vertices).1.IsWritable := by
  simp only [polyline, Entity.IsWritable, List.map_map, List.forall_mem_map]
  exact fun v _ => ⟨isFinite_valueOf v.tags 10, isFinite_valueOf v.tags 20⟩

theorem entity?_writable (r : Record) : ∀ e ∈ r.entity?, e.IsWritable := by
  unfold entity?
  split_ifs <;> rintro e ⟨⟩
  · exact r.line_writable
  · exact r.lightPolyline_writable
  · exact r.circle_writable
  · exact r.arc_writable

end Record

theorem readRecords_writable (records : List Record) :
    ∀ e ∈ (readRecords records).entities, e.IsWritable := by
  induction records using records_induction with
  | nil =>
    rw [readRecords]
    exact List.forall_mem_nil _
  | polyline r rest kind ih =>
    rw [entities_cons, if_pos kind]
    exact List.forall_mem_cons.mpr ⟨r.polyline_writable _, ih⟩
  | other r rest kind ih =>
    rw [entities_cons, if_neg kind, List.forall_mem_append]
    exact ⟨fun e member => r.entity?_writable e (Option.mem_toList.mp member), ih⟩

/-- Whatever the text, the entities read have finite numbers, and are of the kinds that can be
drawn. -/
theorem readDxf_writable (text : List Char) : ∀ e ∈ (readDxf text).entities, e.IsWritable := by
  unfold readDxf
  simp only
  split
  · simp
  · exact readRecords_writable _

/-! Outlines. -/

/-- How many points are fed to for an entity: one for a line, one for each further point of a
polyline and one more to close it, 36 for a circle and 18 for an arc. -/
def Entity.feeds : Entity → Nat
  | .line _ _ _ _ => 1
  | .polyline points closed =>
    if points.length < 2 then 0 else points.length - 1 + if closed then 1 else 0
  | .circle _ _ _ => 36
  | .arc _ _ _ _ _ => 18
  | .unsupported _ => 0

/-- The numbers that the points of a curve are computed from. -/
def Entity.curveNumbers : Entity → List Float
  | .circle cx cy r => [cx, cy, r]
  | .arc cx cy r start stop => [cx, cy, r, start, stop]
  | .line _ _ _ _ | .polyline _ _ | .unsupported _ => []

/-- No number of a curve is far out. -/
def Entity.IsModerate (e : Entity) : Prop := ∀ x ∈ e.curveNumbers, Moderate x

instance (e : Entity) : Decidable e.IsModerate := inferInstanceAs (Decidable (∀ x ∈ _, _))

/-- Every point that is computed for the entity is finite. -/
def Entity.IsFinite (e : Entity) : Prop :=
  ∀ outline, e.outline? .default = .ok (some outline) → outline.Finite

/-- The entity has an outline, with a point on its path for each of its feeds, or feeds to nothing.
The points are finite unless they are on a curve with a number far out. -/
def Entity.HasOutline (e : Entity) : Prop :=
  ∃ outline?, e.outline? .default = .ok outline? ∧
    (outline?.map (·.path.length)).getD 0 = e.feeds ∧
    (e.IsModerate → ∀ outline ∈ outline?, outline.Finite)

theorem line_hasOutline {x1 y1 x2 y2 : Float}
    (writable : (Entity.line x1 y1 x2 y2).IsWritable) : (Entity.line x1 y1 x2 y2).HasOutline := by
  simp only [Entity.IsWritable, List.forall_mem_cons] at writable
  obtain ⟨startX, startY, endX, endY, -⟩ := writable
  refine ⟨_, rfl, rfl, fun _ => ?_⟩
  rintro _ ⟨⟩
  exact ⟨⟨startX, startY⟩, List.forall_mem_singleton.mpr ⟨endX, endY⟩⟩

theorem polyline_hasOutline {points : List (Float × Float)} (closed : Bool)
    (writable : (Entity.polyline points closed).IsWritable) :
    (Entity.polyline points closed).HasOutline := by
  match points with
  | [] | [_] => exact ⟨none, rfl, rfl, by simp⟩
  | first :: second :: rest =>
    obtain ⟨start, path⟩ := List.forall_mem_cons.mp writable
    refine ⟨_, rfl, ?_, fun _ => ?_⟩
    · cases closed <;> simp [Entity.feeds]
    · rintro _ ⟨⟩
      refine ⟨start, List.forall_mem_append.mpr ⟨path, ?_⟩⟩
      cases closed with
      | false => exact List.forall_mem_nil _
      | true => exact List.forall_mem_singleton.mpr start

theorem circle_hasOutline {cx cy r : Float} (writable : (Entity.circle cx cy r).IsWritable) :
    (Entity.circle cx cy r).HasOutline := by
  simp only [Entity.IsWritable, List.forall_mem_cons] at writable
  obtain ⟨finiteX, finiteY, finiteR, -⟩ := writable
  obtain ⟨start, first, finiteStart⟩ := exists_point finiteX finiteY finiteR (.inl isFinite_zero)
  obtain ⟨path, points, finitePath⟩ := exists_circlePoints finiteX finiteY finiteR
  have round : Planar.circlePoints cx cy r CompilerConfig.default.circleSegments =
      .ok path := points
  refine ⟨some ⟨start, path⟩, ?_, CompilerConfig.length_alongSegments points, ?_⟩
  · rw [Entity.outline?, first, round]
    rfl
  · simp only [Entity.IsModerate, Entity.curveNumbers, List.forall_mem_cons]
    rintro ⟨moderateX, moderateY, moderateR, -⟩ _ ⟨⟩
    exact ⟨finiteStart isFinite_zero moderateX moderateY moderateR, fun p member =>
      finitePath p member moderateX moderateY moderateR⟩

theorem arc_hasOutline {cx cy r start stop : Float}
    (writable : (Entity.arc cx cy r start stop).IsWritable) :
    (Entity.arc cx cy r start stop).HasOutline := by
  simp only [Entity.IsWritable, List.forall_mem_cons] at writable
  obtain ⟨finiteX, finiteY, finiteR, finiteA, finiteB, -⟩ := writable
  obtain ⟨point, first, finiteStart⟩ := exists_point finiteX finiteY finiteR (.inl finiteA)
  obtain ⟨path, points, finitePath⟩ := exists_arcPoints finiteX finiteY finiteR finiteA finiteB
  have round : Planar.arcPoints cx cy r start stop CompilerConfig.default.arcSegments =
      .ok path := points
  refine ⟨some ⟨point, path⟩, ?_, CompilerConfig.length_alongSegments points, ?_⟩
  · rw [Entity.outline?, first, round]
    rfl
  · simp only [Entity.IsModerate, Entity.curveNumbers, List.forall_mem_cons]
    rintro ⟨moderateX, moderateY, moderateR, moderateA, moderateB, -⟩ _ ⟨⟩
    exact ⟨finiteStart finiteA moderateX moderateY moderateR, fun p member =>
      finitePath p member moderateA moderateB moderateX moderateY moderateR⟩

theorem Entity.IsWritable.hasOutline {e : Entity} (writable : e.IsWritable) : e.HasOutline := by
  cases e with
  | line => exact line_hasOutline writable
  | polyline _ closed => exact polyline_hasOutline closed writable
  | circle => exact circle_hasOutline writable
  | arc => exact arc_hasOutline writable
  | unsupported => exact writable.elim

theorem finite_of_moderate {e : Entity} (writable : e.IsWritable) (moderate : e.IsModerate) :
    e.IsFinite := by
  obtain ⟨outline?, found, -, finite⟩ := writable.hasOutline
  intro outline same
  rw [found] at same
  exact finite moderate outline (Except.ok.inj same)

/-- The outlines of what is read, whose paths have as many points as the entities feed to. -/
theorem exists_outlines {entities : List Entity} (writable : ∀ e ∈ entities, e.IsWritable) :
    ∃ outlines, CompilerConfig.default.Traced entities outlines ∧
      (outlines.reduceOption.map (·.path.length)).sum = (entities.map Entity.feeds).sum := by
  induction entities with
  | nil => exact ⟨[], .nil, rfl⟩
  | cons e entities ih =>
    obtain ⟨here, others⟩ := List.forall_mem_cons.mp writable
    obtain ⟨outline?, found, length, -⟩ := here.hasOutline
    obtain ⟨outlines, traced, sum⟩ := ih others
    refine ⟨outline? :: outlines, .cons found traced, ?_⟩
    rw [List.map_cons, List.sum_cons, ← length, ← sum]
    cases outline? with
    | none => simp [List.reduceOption_cons_of_none]
    | some outline => simp [List.reduceOption_cons_of_some]

theorem finite_outlines_iff {entities : List Entity} {outlines : List (Option Outline)}
    (traced : CompilerConfig.default.Traced entities outlines) :
    (∀ outline ∈ outlines.reduceOption, outline.Finite) ↔ ∀ e ∈ entities, e.IsFinite := by
  induction traced with
  | nil => simp
  | @cons e outline? entities outlines first _ ih =>
    rw [List.forall_mem_cons, ← ih, Entity.IsFinite, first]
    cases outline? with
    | none => simp [List.reduceOption_cons_of_none]
    | some outline => simp [List.reduceOption_cons_of_some]

/-! The lines of a compiled drawing, with points that need not be finite. -/

namespace CompilerConfig
variable {config : CompilerConfig} {places : Nat}

theorem exists_strokeLines (finite : config.Finite) (places : Nat) :
    ∃ w : WrittenWord, w.letter = 'F' ∧ ∀ (title : List Char) (o : Outline),
      config.stroke places title o.start o.path =
        [title, config.penUp, pointLine places .rapid o.start.1 o.start.2 [], config.penDown] ++
          o.path.map fun p => pointLine places .linear p.1 p.2 [w] := by
  obtain ⟨n, text, -, good⟩ := exists_constant finite.feedRate
  refine ⟨⟨'F', rfl, n, good⟩, rfl, fun title o => ?_⟩
  simp [stroke, pointLine_eq, MoveKind.word, WrittenWord.text, text]

/-- The motions of a stroke do not depend on where its points are. -/
theorem stroke_motions (writable : config.Writable) (title : List Char) (o : Outline) :
    (config.stroke places (';' :: title) o.start o.path ++ [[]]).filterMap motion? =
      List.replicate 3 .rapid ++ List.replicate o.path.length .linear := by
  obtain ⟨w, letter, lines⟩ := exists_strokeLines writable.finite places
  have comment := (hasEffect_comment (.inr (.inl rfl)) title).motion?
  have up := (penUp_effect writable).motion?
  have down := (penDown_effect writable).motion?
  have blank := hasEffect_blank.motion?
  have travel := motion?_pointLine places .rapid o.start.1 o.start.2 [] (by simp)
  have feeds : (o.path.map fun p => pointLine places .linear p.1 p.2 [w]).filterMap motion? =
      List.replicate o.path.length .linear := by
    have each : (motion? ∘ fun p : Float × Float => pointLine places .linear p.1 p.2 [w]) =
        fun _ => some .linear :=
      funext fun p => motion?_pointLine places .linear p.1 p.2 [w] (by simp [letter])
    rw [List.filterMap_map, each]
    simp
  rw [lines, List.filterMap_append, List.filterMap_append, feeds]
  simp [comment, up, down, blank, travel, Effect.kind?, Effect.hold]

/-- If nothing is reported about the lines of a stroke then its points are finite. -/
theorem finite_of_stroke (finite : config.Finite) {title : List Char} {o : Outline}
    (unreported : ∀ line ∈ config.stroke places title o.start o.path, Unreported line) :
    o.Finite := by
  obtain ⟨w, -, lines⟩ := exists_strokeLines finite places
  rw [lines, List.forall_mem_append, List.forall_mem_map] at unreported
  obtain ⟨approach, path⟩ := unreported
  have travel := approach _ (List.mem_cons_of_mem _ (List.mem_cons_of_mem _ List.mem_cons_self))
  exact ⟨finite_of_unreported _ _ _ _ _ (travel 1), fun p member =>
    finite_of_unreported _ _ _ _ _ (path p member 1)⟩

theorem bodies_feeds (writable : config.Writable) {outlines : List Outline}
    {bodies : List (List (List Char))}
    (written : List.Forall₂ (config.Body places) outlines bodies) :
    ((bodies.flatMap (· ++ [[]])).filterMap motion?).count .linear =
      (outlines.map (·.path.length)).sum := by
  induction written with
  | nil => rfl
  | @cons outline body outlines bodies first _ ih =>
    obtain ⟨title, _, rfl⟩ := first
    rw [List.flatMap_cons, List.filterMap_append, List.count_append, ih,
      stroke_motions writable title outline, List.map_cons, List.sum_cons, List.count_append]
    simp

theorem bodies_unreported_iff (writable : config.Writable) {outlines : List Outline}
    {bodies : List (List (List Char))}
    (written : List.Forall₂ (config.Body places) outlines bodies) :
    (∀ line ∈ bodies.flatMap (· ++ [[]]), Unreported line) ↔
      ∀ outline ∈ outlines, outline.Finite := by
  refine ⟨fun unreported => ?_, fun finite =>
    unreported_of_effects (bodies_effects writable finite written)⟩
  induction written with
  | nil => exact List.forall_mem_nil _
  | @cons outline body outlines bodies first _ ih =>
    obtain ⟨title, _, rfl⟩ := first
    rw [List.flatMap_cons, List.forall_mem_append, List.forall_mem_append] at unreported
    exact List.forall_mem_cons.mpr
      ⟨finite_of_stroke writable.finite unreported.1.1, ih unreported.2⟩

/-- A drawing with outlines has a program, be they finite or not. It feeds once for each point of
their paths, and is read without a report exactly if they are finite. -/
theorem compile_read (writable : config.Writable) (usable : places? config.precision = .ok places)
    {entities : List Entity} {outlines : List (Option Outline)}
    (traced : config.Traced entities outlines) :
    ∃ text, config.compile entities = .ok text ∧
      (Program.parse text).moves.countP (·.kind = .linear) =
        (outlines.reduceOption.map (·.path.length)).sum ∧
      ((Program.parse text).diagnostics = [] ↔
        ∀ outline ∈ outlines.reduceOption, outline.Finite) := by
  obtain ⟨bodies, collected, written⟩ := bodies_traced traced fun _ => usable
  have unbroken : ∀ line ∈ config.programLines bodies, '\n' ∉ line := by
    rw [programLines, List.forall_mem_append, List.forall_mem_append]
    exact ⟨⟨header_unbroken writable.finite, bodies_unbroken writable.finite written⟩,
      footer_unbroken writable.finite⟩
  have nonempty : config.programLines bodies ≠ [] := by simp [programLines, header]
  have header := header_effects writable
  have footer := footer_effects writable
  refine ⟨Text.joinLines (config.programLines bodies), ?_, ?_, ?_⟩
  · rw [compile, compileBy, collected]
    rfl
  · have kinds := kinds_parse (Text.joinLines (config.programLines bodies))
    have none : (headerEffects.filterMap Effect.kind?).count .linear = 0 ∧
        (footerEffects.filterMap Effect.kind?).count .linear = 0 := by decide
    have counted := congrArg (List.count .linear) kinds
    rw [splitLines_joinLines nonempty unbroken, programLines, List.filterMap_append,
      List.filterMap_append, List.count_append, List.count_append, motions_of_effects header,
      motions_of_effects footer, bodies_feeds writable written, none.1, none.2, Nat.zero_add,
      Nat.add_zero, List.count_eq_countP, List.countP_map] at counted
    rw [← counted]
    rfl
  · rw [parse_unreported_iff, splitLines_joinLines nonempty unbroken, programLines,
      List.forall_mem_append, List.forall_mem_append, bodies_unreported_iff writable written]
    exact ⟨fun unreported => unreported.1.2, fun finite =>
      ⟨⟨unreported_of_effects header, finite⟩, unreported_of_effects footer⟩⟩

/-- With the default constants there is a program for whatever can be drawn. -/
theorem compile_default {entities : List Entity} (writable : ∀ e ∈ entities, e.IsWritable) :
    ∃ text, default.compile entities = .ok text ∧
      (Program.parse text).moves.countP (·.kind = .linear) = (entities.map Entity.feeds).sum ∧
      ((Program.parse text).diagnostics = [] ↔ ∀ e ∈ entities, e.IsFinite) := by
  have usable : places? default.precision = .ok 3 := rfl
  obtain ⟨outlines, traced, length⟩ := exists_outlines writable
  obtain ⟨text, compiled, feeds, silent⟩ := compile_read default_writable usable traced
  exact ⟨text, compiled, feeds.trans length, silent.trans (finite_outlines_iff traced)⟩

end CompilerConfig

end Drawing

/-! Sessions. -/

open Drawing Gcode

theorem SimulatorConfig.default_compiler :
    SimulatorConfig.default.compiler.compiler = CompilerConfig.default.compiler := by
  have lines : CompilerSettings.default.entityLines .default =
      CompilerConfig.default.compileEntity := by
    funext e
    cases e <;> rfl
  have resolved : CompilerSettings.default.resolve = .ok .default := rfl
  change CompilerSettings.default.compiler = _
  unfold CompilerSettings.compiler CompilerConfig.compiler
  rw [resolved]
  simp only [lines]
  rfl

namespace Session
variable {σ : Type} {s : Session σ}

theorem convertDrawing_result
    (settings : s.compiler = SimulatorConfig.default.compiler.compiler) (text : List Char) :
    (s.convertDrawing text).result =
      CompilerConfig.default.compile (readDxf text).entities := by
  rw [convertDrawing, settings, SimulatorConfig.default_compiler]
  rfl

/-- With the default configuration every text of a drawing is converted into a program. Its linear
moves are as many as the entities read feed to points: one for a line, one for each further point of
a polyline and one more to close it, 36 for a circle, 18 for an arc. The program is read without a
report exactly if all points computed for the entities are finite, and they are if no number of a
circle or an arc is far out. -/
theorem convertDrawing_read (settings : s.compiler = SimulatorConfig.default.compiler.compiler)
    (text : List Char) : ∃ program, (s.convertDrawing text).result = .ok program ∧
      (Program.parse program).moves.countP (·.kind = .linear) =
        ((readDxf text).entities.map Entity.feeds).sum ∧
      ((Program.parse program).diagnostics = [] ↔
        ∀ e ∈ (readDxf text).entities, e.IsFinite) ∧
      ((∀ e ∈ (readDxf text).entities, e.IsModerate) →
        (Program.parse program).diagnostics = []) := by
  have writable := readDxf_writable text
  obtain ⟨program, compiled, feeds, silent⟩ := CompilerConfig.compile_default writable
  rw [convertDrawing_result settings]
  refine ⟨program, compiled, feeds, silent, fun moderate => silent.mpr fun e member => ?_⟩
  exact finite_of_moderate (writable e member) (moderate e member)

theorem convertDrawing_read_circle :
    let s : Session (ManualScheduler Nat) := .new ⟨50, 25, 3, 800, 600, 60, 0.9,
      SimulatorConfig.default.compiler.compiler, 3⟩ .empty
    let text := "0\nSECTION\n2\nENTITIES\n0\nCIRCLE\n10\n1\n20\n2\n40\n3\n0\nENDSEC\n".toList
    s.compiler = SimulatorConfig.default.compiler.compiler ∧
      (∀ e ∈ (readDxf text).entities, e.IsModerate) ∧
      ∃ program, (s.convertDrawing text).result = .ok program ∧
        (Program.parse program).moves.countP (·.kind = .linear) = 36 ∧
        (Program.parse program).diagnostics = [] := by
  intro s text
  have moderate : ∀ e ∈ (readDxf text).entities, e.IsModerate := by decide +kernel
  have feeds : ((readDxf text).entities.map Entity.feeds).sum = 36 := by decide +kernel
  obtain ⟨program, converted, count, -, silent⟩ := convertDrawing_read (s := s) rfl text
  exact ⟨rfl, moderate, program, converted, count.trans feeds, silent moderate⟩

/-- The difference of the angles of an arc can be infinite. Its points are then no numbers, and are
reported for what they are written as. -/
theorem arc_out_of_range :
    let s : Session (ManualScheduler Nat) := .new ⟨50, 25, 3, 800, 600, 60, 0.9,
      SimulatorConfig.default.compiler.compiler, 3⟩ .empty
    let text := ("0\nSECTION\n2\nENTITIES\n0\nARC\n10\n0\n20\n0\n40\n1\n50\n-1e308\n51\n1e308\n" ++
      "0\nENDSEC\n").toList
    ∃ program, (s.convertDrawing text).result = .ok program ∧
      (Program.parse program).diagnostics ≠ [] := by
  intro s text
  have broken : ((readDxf text).entities.any fun e =>
      ((e.outline? .default).toOption.bind id).any fun o =>
        o.path.any fun p => !Binary64.isFinite p.1) = true := by decide +kernel
  obtain ⟨program, compiled, -, silent⟩ :=
    CompilerConfig.compile_default (readDxf_writable text)
  refine ⟨program, (convertDrawing_result rfl text).trans compiled, fun none => ?_⟩
  obtain ⟨e, member, broken⟩ := List.any_eq_true.mp broken
  have finite := silent.mp none e member
  cases traced : e.outline? .default with
  | error fault =>
    rw [traced] at broken
    cases broken
  | ok outline? =>
    rw [traced] at broken
    cases outline? with
    | none => cases broken
    | some o =>
      obtain ⟨p, onPath, notFinite⟩ := List.any_eq_true.mp broken
      have point := ((finite o traced).2 p onPath).1
      rw [point] at notFinite
      cases notFinite

end Session

end Toolpath
