import Mathlib
import Toolpath.Proofs.Drawing.Lines

/-! Compiling a drawing and reading the program is the direct lowering of the drawing. The lowering
never sees a text: it lifts to the start of each outline, feeds along its path, and returns to the
origin at the end. -/
namespace Toolpath.Drawing
open Gcode Binary64 Decimal

/-- What is drawn of an entity: where its stroke starts, and the points that it feeds through. -/
structure Outline where
  start : Float × Float
  path : List (Float × Float)

/-- The outline of an entity, none for a polyline too short to draw. -/
def Entity.outline? (config : CompilerConfig) : Entity → Except Fault (Option Outline)
  | .line x1 y1 x2 y2 => .ok (some ⟨(x1, y1), [(x2, y2)]⟩)
  | .polyline [] _ | .polyline [_] _ => .ok none
  | .polyline (first :: second :: rest) closed =>
    .ok (some ⟨first, second :: rest ++ if closed then [first] else []⟩)
  | .circle cx cy r => do
    let start ← Planar.pointOnCircle cx cy r 0
    let path ← Planar.circlePoints cx cy r config.circleSegments
    return some ⟨start, path⟩
  | .arc cx cy r start stop => do
    let first ← Planar.pointOnCircle cx cy r start
    let path ← Planar.arcPoints cx cy r start stop config.arcSegments
    return some ⟨first, path⟩
  | .unsupported kind => throw (.unsupportedEntity kind)

/-- How many points the path of an entity has. -/
def Entity.pathLength (config : CompilerConfig) : Entity → Nat
  | .line _ _ _ _ => 1
  | .polyline points closed => points.length - 1 + if closed then 1 else 0
  | .circle _ _ _ => config.circleSegments.toNat
  | .arc _ _ _ _ _ => config.arcSegments.toNat
  | .unsupported _ => 0

namespace Outline

def Finite (o : Outline) : Prop := FinitePoint o.start ∧ ∀ p ∈ o.path, FinitePoint p

/-- Every coordinate of the outline is written as a number, which reads as its rounded value. -/
def Readable (places : Nat) (o : Outline) : Prop :=
  ∀ p ∈ o.start :: o.path, float? (coordinate places p.1) = some (rounded places p.1) ∧
    float? (coordinate places p.2) = some (rounded places p.2)

theorem Finite.readable {o : Outline} (finite : o.Finite) (places : Nat) : o.Readable places := by
  intro p member
  have point : FinitePoint p := by
    rcases List.mem_cons.mp member with rfl | onPath
    · exact finite.1
    · exact finite.2 p onPath
  exact ⟨float?_coordinate places point.1, float?_coordinate places point.2⟩

/-- The point at which the stroke ends. -/
def last (o : Outline) : Float × Float := o.path.getLastD o.start

variable (places : Nat) (feed : Float)

/-- The linear moves through points, the first of them on the line given. -/
def pathMoves (line : Int) : List (Float × Float) → List (Move Float)
  | [] => []
  | (x, y) :: rest =>
    ⟨.linear, rounded places x, rounded places y, feed, line⟩ :: pathMoves (line + 1) rest

/-- The moves of a stroke that is written from `line` on: up, to the start, down, and along the
path. -/
def moves (m : Modal) (line : Int) (o : Outline) : List (Move Float) :=
  [⟨.rapid, m.x, m.y, m.feed, line + 1⟩,
    ⟨.rapid, rounded places o.start.1, rounded places o.start.2, m.feed, line + 2⟩,
    ⟨.rapid, rounded places o.start.1, rounded places o.start.2, m.feed, line + 3⟩] ++
  pathMoves places feed (line + 4) o.path

/-- The modal values after a stroke. -/
def after (m : Modal) (o : Outline) : Modal :=
  ⟨rounded places o.last.1, rounded places o.last.2, if o.path = [] then m.feed else feed⟩

/-- The moves of a drawing whose strokes are written from `line` on, with those of the footer. -/
def lower (m : Modal) (line : Int) : List Outline → List (Move Float)
  | [] => [⟨.rapid, m.x, m.y, m.feed, line + 1⟩, ⟨.rapid, 0, 0, m.feed, line + 2⟩]
  | o :: rest =>
    o.moves places feed m line ++ lower (o.after places feed m) (line + o.path.length + 5) rest

/-- The effects of the lines of a stroke and of the blank one behind it. -/
def effects (o : Outline) : List Effect := strokeEffects places feed o.start o.path ++ [.silent]

theorem run_path (m : Modal) (line : Int) (path : List (Float × Float)) :
    m.run line (pathEffects places feed path) = pathMoves places (reread feed) line path := by
  induction path generalizing m line with
  | nil => rfl
  | cons p rest ih =>
    rw [pathEffects, List.map_cons, Modal.run]
    simp only [pathMoves, Modal.advance, Option.getD_some]
    rw [← ih]
    rfl

theorem afterEffects_path (m : Modal) (path : List (Float × Float)) :
    m.afterEffects (pathEffects places feed path) = match path.getLast? with
      | none => m
      | some p => ⟨rounded places p.1, rounded places p.2, reread feed⟩ := by
  induction path using List.reverseRecOn with
  | nil => rfl
  | append_singleton path p _ =>
    rw [pathEffects, List.map_append, Modal.afterEffects, List.foldl_append, List.getLast?_concat]
    rfl

/-- The effects before the path: up, to the start, and down. -/
theorem run_approach (m : Modal) (line : Int) (x y : Float) (rest : List Effect) :
    m.run line (.silent :: .hold :: .motion .rapid (some x) (some y) none :: .hold :: rest) =
      [⟨.rapid, m.x, m.y, m.feed, line + 1⟩, ⟨.rapid, x, y, m.feed, line + 2⟩,
        ⟨.rapid, x, y, m.feed, line + 3⟩] ++ (⟨x, y, m.feed⟩ : Modal).run (line + 4) rest := by
  have second : line + 1 + 1 = line + 2 := by omega
  have third : line + 2 + 1 = line + 3 := by omega
  have fourth : line + 3 + 1 = line + 4 := by omega
  simp only [Modal.run, Effect.hold, second, third, fourth]
  rfl

/-- Reading the lines of a stroke gives its moves. -/
theorem run_effects (m : Modal) (line : Int) (o : Outline) :
    m.run line (o.effects places feed) = o.moves places (reread feed) m line := by
  rw [effects, Modal.run_append, strokeEffects]
  simp only [List.cons_append, List.nil_append]
  rw [run_approach, run_path]
  simp only [Modal.run, List.append_nil]
  rfl

theorem afterEffects_effects (m : Modal) (o : Outline) :
    m.afterEffects (o.effects places feed) = o.after places (reread feed) m := by
  have along (start : Modal) := afterEffects_path places feed start o.path
  have whole : m.afterEffects (o.effects places feed) =
      (⟨rounded places o.start.1, rounded places o.start.2, m.feed⟩ : Modal).afterEffects
        (pathEffects places feed o.path) := by
    rw [effects, strokeEffects, Modal.afterEffects, List.foldl_append, List.foldl_append]
    rfl
  rw [whole, along, after, last, List.getLastD_eq_getLast?]
  cases ending : o.path.getLast? with
  | none => simp [List.getLast?_eq_none_iff.mp ending]
  | some p =>
    have nonempty : o.path ≠ [] := by
      intro empty
      rw [empty] at ending
      cases ending
    simp [nonempty]

theorem length_effects (o : Outline) : (o.effects places feed).length = o.path.length + 5 := by
  simp [effects, strokeEffects, pathEffects]

/-- Strokes and footer, stroke by stroke. -/
theorem run_strokes (m : Modal) (line : Int) (outlines : List Outline) :
    m.run line (outlines.flatMap (effects places feed) ++ CompilerConfig.footerEffects) =
      lower places (reread feed) m line outlines := by
  induction outlines generalizing m line with
  | nil =>
    have second : line + 1 + 1 = line + 2 := by omega
    simp only [List.flatMap_nil, List.nil_append, CompilerConfig.footerEffects, Modal.run,
      Effect.hold, Effect.home, second, lower]
    rfl
  | cons o rest ih =>
    have place : line + ((o.path.length + 5 : Nat) : Int) = line + o.path.length + 5 := by
      push_cast
      omega
    rw [List.flatMap_cons, List.append_assoc, Modal.run_append, run_effects, afterEffects_effects,
      length_effects, place, ih, lower]

end Outline

/-! The lines of a whole drawing. -/

/-- The comment over the stroke of an entity. -/
def Entity.title (places : Nat) : Entity → List Char
  | .line _ _ _ _ => "; LINE".toList
  | .polyline points _ => CompilerConfig.polylineTitle points.length
  | .circle cx cy r => CompilerConfig.circleTitle places cx cy r
  | .arc _ _ _ _ _ => "; ARC".toList
  | .unsupported _ => [';']

theorem Entity.title_shape (places : Nat) (entity : Entity) :
    ∃ title, entity.title places = ';' :: title ∧ '\n' ∉ title := by
  cases entity with
  | line _ _ _ _ => exact ⟨" LINE".toList, rfl, by decide⟩
  | polyline points closed =>
    refine ⟨" POLYLINE (".toList ++ natural points.length ++ " points)".toList, rfl, ?_⟩
    have digits : '\n' ∉ natural points.length :=
      fun member => absurd (isDigit_of_mem_natural member) (by decide)
    simp [digits]
  | circle cx cy r =>
    refine ⟨" CIRCLE (center: ".toList ++ coordinate places cx ++ ", ".toList ++
      coordinate places cy ++ ", r: ".toList ++ coordinate places r ++ ")".toList, rfl, ?_⟩
    simp [coordinate_unbroken]
  | arc _ _ _ _ _ => exact ⟨" ARC".toList, rfl, by decide⟩
  | unsupported _ => exact ⟨[], rfl, by simp⟩

namespace CompilerConfig
variable {config : CompilerConfig} {places : Nat}

/-- An entity is compiled from its outline. -/
theorem compileEntity_eq (entity : Entity) : config.compileEntity entity = (do
    let outline? ← entity.outline? config
    match outline? with
    | none => return []
    | some outline => do
      let places ← places? config.precision
      return config.stroke places (entity.title places) outline.start outline.path) := by
  cases entity with
  | line x1 y1 x2 y2 => rfl
  | polyline points closed =>
    match points with
    | [] | [_] => rfl
    | first :: second :: rest => rfl
  | circle cx cy r =>
    rw [compileEntity, Entity.outline?]
    cases Planar.pointOnCircle cx cy r 0 with
    | error fault => rfl
    | ok start =>
      cases Planar.circlePoints cx cy r config.circleSegments with
      | error fault => rfl
      | ok path => rfl
  | arc cx cy r start stop =>
    rw [compileEntity, Entity.outline?]
    cases Planar.pointOnCircle cx cy r start with
    | error fault => rfl
    | ok first =>
      cases Planar.arcPoints cx cy r start stop config.arcSegments with
      | error fault => rfl
      | ok path => rfl
  | unsupported kind => rfl

theorem bodiesBy_cons (lines : Entity → Except Fault (List (List Char))) (entity : Entity)
    (rest : List Entity) : bodiesBy lines (entity :: rest) = (do
      let body ← lines entity
      let others ← bodiesBy lines rest
      return [body].filter (· ≠ []) ++ others) := by
  unfold bodiesBy
  rw [List.mapM_cons]
  cases lines entity with
  | error fault => rfl
  | ok body =>
    cases rest.mapM lines with
    | error fault => rfl
    | ok found =>
      simp only [bind, Except.bind, pure, Except.pure, Except.map]
      rw [← List.filter_append, List.singleton_append]

/-- The lines of a body are those of an outline under some title. -/
def Body (config : CompilerConfig) (places : Nat) (outline : Outline) (lines : List (List Char)) :
    Prop :=
  ∃ title, '\n' ∉ title ∧ lines = config.stroke places (';' :: title) outline.start outline.path

/-- Each entity with that outline, if it has one. -/
abbrev Traced (config : CompilerConfig) : List Entity → List (Option Outline) → Prop :=
  List.Forall₂ fun entity outline? => entity.outline? config = .ok outline?

theorem bodies_traced {entities : List Entity} {outlines : List (Option Outline)}
    (traced : config.Traced entities outlines)
    (usable : outlines.reduceOption ≠ [] → places? config.precision = .ok places) :
    ∃ bodies, bodiesBy config.compileEntity entities = .ok bodies ∧
      List.Forall₂ (config.Body places) outlines.reduceOption bodies := by
  induction traced with
  | nil => exact ⟨[], rfl, .nil⟩
  | @cons entity outline? entities outlines first _ ih =>
    rw [bodiesBy_cons, compileEntity_eq, first]
    cases outline? with
    | none =>
      obtain ⟨bodies, others, written⟩ := ih usable
      rw [others]
      exact ⟨bodies, rfl, written⟩
    | some outline =>
      have written := usable (List.cons_ne_nil _ _)
      obtain ⟨title, shape, unbroken⟩ := entity.title_shape places
      obtain ⟨bodies, others, rest⟩ := ih fun _ => written
      rw [others]
      simp only [bind, Except.bind, written, shape]
      exact ⟨_, rfl, .cons ⟨title, unbroken, rfl⟩ rest⟩

theorem bodies_unusable {fault : Fault} (unusable : places? config.precision = .error fault)
    {entities : List Entity} {outlines : List (Option Outline)}
    (traced : config.Traced entities outlines) (drawn : outlines.reduceOption ≠ []) :
    bodiesBy config.compileEntity entities = .error fault := by
  induction traced with
  | nil => exact absurd rfl drawn
  | @cons entity outline? entities outlines first _ ih =>
    rw [bodiesBy_cons, compileEntity_eq, first]
    cases outline? with
    | none =>
      rw [ih drawn]
      rfl
    | some outline =>
      simp only [bind, Except.bind, unusable]

theorem bodies_effects (writable : config.Writable) {outlines : List Outline}
    {bodies : List (List (List Char))} (finite : ∀ outline ∈ outlines, outline.Finite)
    (written : List.Forall₂ (config.Body places) outlines bodies) :
    List.Forall₂ HasEffect (bodies.flatMap (· ++ [[]]))
      (outlines.flatMap (Outline.effects places config.feedRate)) := by
  induction written with
  | nil => exact .nil
  | @cons outline body outlines bodies first _ ih =>
    obtain ⟨title, _, rfl⟩ := first
    obtain ⟨start, path⟩ := finite outline List.mem_cons_self
    rw [List.flatMap_cons, List.flatMap_cons]
    have stroke := stroke_effects writable places title start path
    have blank : List.Forall₂ HasEffect [[]] [Effect.silent] := .cons hasEffect_blank .nil
    exact List.rel_append (List.rel_append stroke blank)
      (ih fun other member => finite other (List.mem_cons_of_mem _ member))

theorem bodies_unbroken (finite : config.Finite) {outlines : List Outline}
    {bodies : List (List (List Char))}
    (written : List.Forall₂ (config.Body places) outlines bodies) :
    ∀ line ∈ bodies.flatMap (· ++ [[]]), '\n' ∉ line := by
  induction written with
  | nil => simp
  | @cons outline body outlines bodies first _ ih =>
    obtain ⟨title, unbroken, rfl⟩ := first
    have stroke := @stroke_unbroken config finite places (';' :: title) (by simp [unbroken])
      outline.start outline.path
    rw [List.flatMap_cons, List.forall_mem_append, List.forall_mem_append]
    exact ⟨⟨stroke, by simp⟩, ih⟩

theorem bind_ok {α β : Type} {first : Except Fault α} {next : α → Except Fault β} {result : β}
    (done : first >>= next = .ok result) : ∃ a, first = .ok a ∧ next a = .ok result := by
  cases first with
  | error fault => cases done
  | ok a => exact ⟨a, rfl, done⟩

theorem length_mapM {α β : Type} {f : α → Except Fault β} {as : List α} {bs : List β}
    (done : as.mapM f = .ok bs) :
    bs.length = as.length := by
  induction as generalizing bs with
  | nil =>
    cases done
    rfl
  | cons a as ih =>
    rw [List.mapM_cons] at done
    obtain ⟨b, _, done⟩ := bind_ok done
    obtain ⟨rest, found, done⟩ := bind_ok done
    cases done
    rw [List.length_cons, List.length_cons, ih found]

/-- A division into segments has a point for each of them. -/
theorem length_alongSegments {segments : Int} {point : Int → Except Fault (Float × Float)}
    {path : List (Float × Float)} (done : Planar.alongSegments segments point = .ok path) :
    path.length = segments.toNat := by
  unfold Planar.alongSegments at done
  split at done
  · cases done
    rw [List.length_nil]
    omega
  · obtain ⟨_, _, done⟩ := bind_ok done
    rw [length_mapM done, List.length_range]

theorem length_outline {entity : Entity} {outline : Outline}
    (traced : entity.outline? config = .ok (some outline)) :
    outline.path.length = entity.pathLength config := by
  cases entity with
  | line x1 y1 x2 y2 =>
    cases traced
    rfl
  | polyline points closed =>
    match points with
    | [] | [_] => cases traced
    | first :: second :: rest =>
      cases traced
      cases closed <;> simp [Entity.pathLength]
  | circle cx cy r =>
    obtain ⟨start, _, traced⟩ := bind_ok traced
    obtain ⟨path, found, traced⟩ := bind_ok traced
    cases traced
    exact length_alongSegments found
  | arc cx cy r start stop =>
    obtain ⟨first, _, traced⟩ := bind_ok traced
    obtain ⟨path, found, traced⟩ := bind_ok traced
    cases traced
    exact length_alongSegments found
  | unsupported kind => cases traced

/-- Compiling a drawing and reading the program back gives, without a report, the direct lowering of
its outlines behind the two rapid moves of the header; the feed of a linear move equals the one
configured. Every point has to be finite, and the count of decimals one that numbers can be read with,
unless nothing is drawn. -/
theorem parse_compile (writable : config.Writable) (nonnegative : 0 ≤ config.precision)
    {entities : List Entity} {outlines : List (Option Outline)}
    (traced : config.Traced entities outlines)
    (finite : ∀ outline ∈ outlines.reduceOption, outline.Finite) :
    (outlines.reduceOption = [] ∨ config.precision ≤ readablePlaces →
      ∃ text feed, config.compile entities = .ok text ∧ (Program.parse text).diagnostics = [] ∧
        (feed == config.feedRate) = true ∧
        (Program.parse text).moves = [⟨.rapid, 0, 0, 0, 11⟩, ⟨.rapid, 0, 0, 0, 12⟩] ++
          Outline.lower config.precision.toNat feed .start 14 outlines.reduceOption) ∧
    (outlines.reduceOption ≠ [] → maxPlaces < config.precision →
      config.compile entities = .error .unusablePrecision) ∧
    List.Forall₂ (fun entity outline? =>
      ∀ outline ∈ outline?, outline.path.length = entity.pathLength config) entities outlines ∧
    ∀ outline ∈ outlines.reduceOption, outline.Readable config.precision.toNat := by
  refine ⟨?_, ?_, ?_, fun outline member => (finite outline member).readable _⟩
  · intro possible
    have usable : outlines.reduceOption ≠ [] →
        places? config.precision = .ok config.precision.toNat := by
      intro drawn
      exact if_pos ⟨nonnegative, places_of_readable (possible.resolve_left drawn)⟩
    obtain ⟨bodies, collected, written⟩ := bodies_traced traced usable
    have effects : List.Forall₂ HasEffect (config.programLines bodies) (headerEffects ++
        outlines.reduceOption.flatMap (Outline.effects config.precision.toNat config.feedRate) ++
          footerEffects) :=
      List.rel_append
        (List.rel_append (header_effects writable) (bodies_effects writable finite written))
        (footer_effects writable)
    have unbroken : ∀ line ∈ config.programLines bodies, '\n' ∉ line := by
      rw [programLines, List.forall_mem_append, List.forall_mem_append]
      exact ⟨⟨header_unbroken writable.finite, bodies_unbroken writable.finite written⟩,
        footer_unbroken writable.finite⟩
    have nonempty : config.programLines bodies ≠ [] := by simp [programLines, header]
    obtain ⟨moved, silent⟩ := parse_joinLines nonempty unbroken effects
    refine ⟨_, reread config.feedRate, ?_, silent, reread_beq writable.feedRate, ?_⟩
    · rw [compile, compileBy, collected]
      rfl
    · rw [moved, List.append_assoc, Modal.run_append]
      exact congrArg (_ ++ ·)
        (Outline.run_strokes config.precision.toNat config.feedRate .start 14 _)
  · intro drawn beyond
    have unusable : places? config.precision = .error .unusablePrecision := if_neg (by omega)
    rw [compile, compileBy, bodies_unusable unusable traced drawn]
    rfl
  · refine traced.imp ?_
    rintro entity outline? first outline ⟨⟩
    exact length_outline first

theorem default_writable : CompilerConfig.default.Writable := by
  constructor <;> decide

theorem parse_compile_default : ∃ text feed,
    default.compile [.line 0 0 10 0, .polyline [(5, 5)] true, .polyline [(0, 0), (0, 10)] true] =
        .ok text ∧
      (Program.parse text).diagnostics = [] ∧ (feed == default.feedRate) = true ∧
      (Program.parse text).moves = [⟨.rapid, 0, 0, 0, 11⟩, ⟨.rapid, 0, 0, 0, 12⟩] ++
        Outline.lower 3 feed .start 14 [⟨(0, 0), [(10, 0)]⟩, ⟨(0, 0), [(0, 10), (0, 0)]⟩] := by
  have traced :
      default.Traced [.line 0 0 10 0, .polyline [(5, 5)] true, .polyline [(0, 0), (0, 10)] true]
      [some ⟨(0, 0), [(10, 0)]⟩, none, some ⟨(0, 0), [(0, 10), (0, 0)]⟩] :=
    .cons rfl (.cons rfl (.cons rfl .nil))
  have zero : isFinite 0 = true := by decide
  have ten : isFinite 10 = true := by decide
  have finite : ∀ outline ∈
      [some (⟨(0, 0), [(10, 0)]⟩ : Outline), none, some ⟨(0, 0), [(0, 10), (0, 0)]⟩].reduceOption,
      outline.Finite := by
    intro outline member
    have drawn : outline = ⟨(0, 0), [(10, 0)]⟩ ∨ outline = ⟨(0, 0), [(0, 10), (0, 0)]⟩ := by
      simpa [List.reduceOption] using member
    rcases drawn with rfl | rfl
    · exact ⟨⟨zero, zero⟩, List.forall_mem_singleton.mpr ⟨ten, zero⟩⟩
    · exact ⟨⟨zero, zero⟩,
        List.forall_mem_cons.mpr ⟨⟨zero, ten⟩, List.forall_mem_singleton.mpr ⟨zero, zero⟩⟩⟩
  exact (parse_compile default_writable (by decide) traced finite).1 (.inr (by decide))

/-- One decimal more than numbers can be written with. -/
theorem compile_too_precise :
    let config := { CompilerConfig.default with precision := 2147483648 }
    config.Writable ∧ config.Traced [.line 0 0 0 0] [some ⟨(0, 0), [(0, 0)]⟩] ∧
      (⟨(0, 0), [(0, 0)]⟩ : Outline).Finite ∧
      config.compile [.line 0 0 0 0] = .error .unusablePrecision := by
  have zero : isFinite 0 = true := by decide
  refine ⟨by constructor <;> decide, .cons rfl .nil, ?_, rfl⟩
  exact ⟨⟨zero, zero⟩, List.forall_mem_singleton.mpr ⟨zero, zero⟩⟩

end CompilerConfig

end Toolpath.Drawing
