import Mathlib
import Toolpath.Proofs.Drawing.Lowering
import Toolpath.Proofs.Gcode.Modality

/-! Where the pen is while a compiled drawing is read. The compiler keeps no height: header, strokes
and footer each lift the pen themselves before they travel, at whatever height they find it. So a
reader that remembers the last word of each letter finds the pen lowered at every cut and lifted at
every travel. -/
namespace Toolpath

namespace Gcode
open Binary64 Decimal

/-- The words of a line that stand outside its comments, each with the value of its number if that
is finite. -/
def valuedWords (line : List Char) : List (Char × Option Float) :=
  (words line).map fun w => (w.letter, finite? w.number)

/-- The values that words give to a letter, in order. -/
def valuesOf (letter : Char) (ws : List (Char × Option Float)) : List Float :=
  ws.filterMap fun w => if w.1 = letter then w.2 else none

@[simp] theorem valuesOf_nil (letter : Char) : valuesOf letter [] = [] := rfl

@[simp] theorem valuesOf_cons (letter c : Char) (value : Float) (ws : List (Char × Option Float)) :
    valuesOf letter ((c, some value) :: ws) =
      if c = letter then value :: valuesOf letter ws else valuesOf letter ws := by
  rw [valuesOf, List.filterMap_cons]
  split <;> simp_all [valuesOf]

/-- A G word of this value is among the words. -/
def Commands (code : Float) (ws : List (Char × Option Float)) : Prop :=
  ∃ value ∈ valuesOf 'G' ws, (value == code) = true

/-- An X or a Y word is among the words. -/
def Travels (ws : List (Char × Option Float)) : Prop := ∃ w ∈ ws, w.1 = 'X' ∨ w.1 = 'Y'

/-- What the last X, Y and Z words said, if there were any. -/
structure Tool where
  x : Option Float
  y : Option Float
  z : Option Float

namespace Tool

def start : Tool := ⟨none, none, none⟩

/-- The tool after the words of a line. -/
def read (tool : Tool) (ws : List (Char × Option Float)) : Tool :=
  ⟨(valuesOf 'X' ws).getLast?.or tool.x, (valuesOf 'Y' ws).getLast?.or tool.y,
    (valuesOf 'Z' ws).getLast?.or tool.z⟩

def readAll (tool : Tool) (lines : List (List (Char × Option Float))) : Tool := lines.foldl read tool

theorem readAll_append (tool : Tool) (before after : List (List (Char × Option Float))) :
    tool.readAll (before ++ after) = (tool.readAll before).readAll after :=
  List.foldl_append

end Tool

/-- There was a word, and the last one said this number. -/
def Says (reading : Option Float) (number : Float) : Prop :=
  ∃ last, reading = some last ∧ (last == number) = true

/-! The words of written lines. -/

/-- The words of a line are these. -/
def HasWords (line : List Char) (ws : List (Char × Option Float)) : Prop := valuedWords line = ws

theorem map_of_hasWords {lines : List (List Char)} {found : List (List (Char × Option Float))}
    (each : List.Forall₂ HasWords lines found) : lines.map valuedWords = found := by
  rw [← List.forall₂_eq_eq_eq, List.forall₂_map_left_iff]
  exact each

theorem hasWords_line (w : WrittenWord) (ws : List WrittenWord) {tail : List Char}
    (allowed : Tail tail) :
    HasWords (wordsText w ws ++ tail) ((w :: ws).map fun v => (v.letter, v.number.value)) := by
  rw [HasWords, valuedWords, words_line w ws allowed, List.map_map]
  apply List.map_congr_left
  intro v _
  have value : finite? v.number.text = some v.number.value :=
    finite?_eq_some_iff.mpr ⟨v.number.float?_text, v.finite⟩
  simp [WrittenWord.word, value]

theorem hasWords_blank : HasWords [] [] := by
  rw [HasWords, valuedWords, words_blank, List.map_nil]

theorem hasWords_comment {c : Char} (opens : c = '(' ∨ c = ';' ∨ c = '%') (rest : List Char) :
    HasWords (c :: rest) [] := by
  rw [HasWords, valuedWords, words_comment opens, List.map_nil]

/-- The value of a natural number as it is written. -/
def naturalValue (n : Nat) : Float := (⟨false, 0, n⟩ : Numeral).value

theorem naturalValue_zero : (naturalValue 0 == 0) = true ∧ (naturalValue 0 == 1) = false := by
  decide

theorem naturalValue_one : (naturalValue 1 == 0) = false ∧ (naturalValue 1 == 1) = true := by
  decide +kernel

end Gcode

namespace Drawing
open Gcode Binary64 Decimal

namespace CompilerConfig
variable {config : CompilerConfig} {tool : Tool} {ws : List (Char × Option Float)}

/-- What the words of a line may be where the tool is: it cuts only at the height of the cuts and
travels only at the safe height, and without a height it does neither. -/
structure Permits (config : CompilerConfig) (tool : Tool) (ws : List (Char × Option Float)) : Prop where
  cutting : Commands 1 ws → Says tool.z config.cutZ
  travelling : Commands 0 ws → Travels ws → Says tool.z config.safeZ
  placed : Travels ws → tool.z ≠ none

/-- Every line is permitted where the lines before it leave the tool. -/
def KeepsPen (config : CompilerConfig) (tool : Tool) : List (List (Char × Option Float)) → Prop
  | [] => True
  | ws :: rest => config.Permits tool ws ∧ config.KeepsPen (tool.read ws) rest

theorem keepsPen_append {before after : List (List (Char × Option Float))} :
    config.KeepsPen tool (before ++ after) ↔
      config.KeepsPen tool before ∧ config.KeepsPen (tool.readAll before) after := by
  induction before generalizing tool with
  | nil => simp [KeepsPen, Tool.readAll]
  | cons ws rest ih =>
    simp only [List.cons_append, KeepsPen, ih, and_assoc]
    rfl

/-! The words of a compiled program. -/

def heightWords (z : Float) : List (Char × Option Float) := [('G', naturalValue 0), ('Z', reread z)]

def homeWords : List (Char × Option Float) :=
  [('G', naturalValue 0), ('X', naturalValue 0), ('Y', naturalValue 0)]

def travelWords (places : Nat) (p : Float × Float) : List (Char × Option Float) :=
  [('G', naturalValue 0), ('X', rounded places p.1), ('Y', rounded places p.2)]

def cutWords (places : Nat) (feed : Float) (p : Float × Float) : List (Char × Option Float) :=
  [('G', naturalValue 1), ('X', rounded places p.1), ('Y', rounded places p.2), ('F', reread feed)]

def headerWords (config : CompilerConfig) : List (List (Char × Option Float)) :=
  [[], [], [], [], [], [('G', naturalValue 21)], [('G', naturalValue 90)], [('G', naturalValue 17)],
    [], [], heightWords config.safeZ, homeWords, []]

def footerWords (config : CompilerConfig) : List (List (Char × Option Float)) :=
  [[], heightWords config.safeZ, homeWords, [], [('M', naturalValue 30)], []]

/-- The words of a stroke, with those of the blank line behind it. -/
def strokeWords (config : CompilerConfig) (places : Nat) (o : Outline) :
    List (List (Char × Option Float)) :=
  [[], heightWords config.safeZ, travelWords places o.start, heightWords config.cutZ] ++
    o.path.map (cutWords places config.feedRate) ++ [[]]

theorem hasWords_height {z : Float} (finite : isFinite z = true) {tail : List Char}
    (allowed : Tail tail) : HasWords ("G0 Z".toList ++ constant z ++ tail) (heightWords z) := by
  obtain ⟨n, good, value, line⟩ := exists_heightWords finite
  rw [line, heightWords, ← value]
  exact hasWords_line _ _ allowed

theorem hasWords_home : HasWords "G0 X0 Y0".toList homeWords := by
  rw [homeLine_eq]
  exact hasWords_line _ _ .none

/-- A word alone but for a comment. -/
theorem hasWords_mode {line tail : List Char} (w : WrittenWord) (shape : line = w.text ++ tail)
    (allowed : Tail tail) : HasWords line [(w.letter, w.number.value)] := by
  have alone : line = wordsText w [] ++ tail := by simp [wordsText, shape]
  rw [alone]
  exact hasWords_line w [] allowed

theorem hasWords_travel (places : Nat) {p : Float × Float} (finite : FinitePoint p) :
    HasWords ("G0 ".toList ++ pointWords places p.1 p.2) (travelWords places p) := by
  obtain ⟨nx, ny, goodX, goodY, valueX, valueY, line⟩ :=
    exists_pointWords places .rapid finite.1 finite.2
  change HasWords (MoveKind.rapid.word.toList ++ ' ' :: pointWords places p.1 p.2) _
  rw [line, ← List.append_nil (wordsText _ _), travelWords, ← valueX, ← valueY]
  exact hasWords_line _ _ .none

theorem hasWords_cut (places : Nat) {feed : Float} (finiteFeed : isFinite feed = true)
    {p : Float × Float} (finite : FinitePoint p) :
    HasWords ("G1 ".toList ++ pointWords places p.1 p.2 ++ " F".toList ++ constant feed)
      (cutWords places feed p) := by
  obtain ⟨nx, ny, nf, goodX, goodY, goodF, valueX, valueY, valueF, line⟩ :=
    exists_pointFeedWords places .linear finite.1 finite.2 finiteFeed
  rw [List.append_assoc]
  change HasWords (MoveKind.linear.word.toList ++ ' ' :: pointWords places p.1 p.2 ++ _) _
  rw [line, ← List.append_nil (wordsText _ _), cutWords, ← valueX, ← valueY, ← valueF]
  exact hasWords_line _ _ .none

theorem header_words (finite : config.Finite) :
    List.Forall₂ HasWords config.header config.headerWords := by
  have opened : HasWords ("G0 Z".toList ++ constant config.safeZ) (heightWords config.safeZ) := by
    simpa using hasWords_height finite.safeZ .none
  refine .cons (hasWords_comment (.inr (.inr rfl)) _) <|
    .cons (hasWords_comment (.inl rfl) _) <| .cons (hasWords_comment (.inl rfl) _) <|
    .cons (hasWords_comment (.inl rfl) _) <| .cons hasWords_blank <| .cons ?_ <| .cons ?_ <|
    .cons ?_ <| .cons hasWords_blank <| .cons (hasWords_comment (.inr (.inl rfl)) _) <|
    .cons opened <| .cons hasWords_home <| .cons hasWords_blank .nil
  · exact hasWords_mode (naturalWord 'G' 21 rfl (by decide +kernel)) (by decide +kernel)
      (.comment 9 " Millimeter".toList 's' rfl)
  · exact hasWords_mode (naturalWord 'G' 90 rfl (by decide +kernel)) (by decide +kernel)
      (.comment 9 " Absolute positionin".toList 'g' rfl)
  · exact hasWords_mode (naturalWord 'G' 17 rfl (by decide +kernel)) (by decide +kernel)
      (.comment 9 " XY plan".toList 'e' rfl)

theorem penUp_words (finite : config.Finite) : HasWords config.penUp (heightWords config.safeZ) :=
  hasWords_height finite.safeZ (.comment 11 " Pen u".toList 'p' rfl)

theorem penDown_words (finite : config.Finite) : HasWords config.penDown (heightWords config.cutZ) :=
  hasWords_height finite.cutZ (.comment 12 " Pen dow".toList 'n' rfl)

theorem footer_words (finite : config.Finite) :
    List.Forall₂ HasWords config.footer config.footerWords := by
  refine .cons (hasWords_comment (.inr (.inl rfl)) _) <| .cons (penUp_words finite) <|
    .cons hasWords_home <| .cons hasWords_blank <| .cons ?_ <|
    .cons (hasWords_comment (.inr (.inr rfl)) _) .nil
  exact hasWords_mode (naturalWord 'M' 30 rfl (by decide +kernel)) (by decide +kernel)
    (.comment 9 " Program en".toList 'd' rfl)

theorem path_words (finite : config.Finite) (places : Nat) {path : List (Float × Float)}
    (drawn : ∀ p ∈ path, FinitePoint p) :
    List.Forall₂ HasWords
      (path.map fun (x, y) =>
        "G1 ".toList ++ pointWords places x y ++ " F".toList ++ constant config.feedRate)
      (path.map (cutWords places config.feedRate)) := by
  rw [List.forall₂_map_left_iff, List.forall₂_map_right_iff, List.forall₂_same]
  exact fun p member => hasWords_cut places finite.feedRate (drawn p member)

theorem stroke_words (finite : config.Finite) (places : Nat) (title : List Char) {o : Outline}
    (drawn : o.Finite) :
    List.Forall₂ HasWords (config.stroke places (';' :: title) o.start o.path ++ [[]])
      (config.strokeWords places o) :=
  List.rel_append (.cons (hasWords_comment (.inr (.inl rfl)) _) <|
    .cons (penUp_words finite) <| .cons (hasWords_travel places drawn.1) <|
    .cons (penDown_words finite) (path_words finite places drawn.2)) (.cons hasWords_blank .nil)

theorem bodies_words (finite : config.Finite) {places : Nat} {outlines : List Outline}
    {bodies : List (List (List Char))} (drawn : ∀ outline ∈ outlines, outline.Finite)
    (written : List.Forall₂ (config.Body places) outlines bodies) :
    List.Forall₂ HasWords (bodies.flatMap (· ++ [[]]))
      (outlines.flatMap (config.strokeWords places)) := by
  induction written with
  | nil => exact .nil
  | @cons outline body outlines bodies first _ ih =>
    obtain ⟨title, _, rfl⟩ := first
    rw [List.flatMap_cons, List.flatMap_cons]
    exact List.rel_append (stroke_words finite places title (drawn outline List.mem_cons_self))
      (ih fun other member => drawn other (List.mem_cons_of_mem _ member))

/-! Each fragment keeps the pen, wherever it finds it. -/

/-- What neither cuts nor travels is permitted anywhere. -/
theorem permits_still (uncut : ¬ Commands 1 ws) (still : ¬ Travels ws) : config.Permits tool ws where
  cutting cut := absurd cut uncut
  travelling _ travels := absurd travels still
  placed travels := absurd travels still

theorem permits_lifted (uncut : ¬ Commands 1 ws) (lifted : Says tool.z config.safeZ) :
    config.Permits tool ws where
  cutting cut := absurd cut uncut
  travelling _ _ := lifted
  placed _ none := by
    obtain ⟨last, some, _⟩ := lifted
    rw [none] at some
    cases some

theorem permits_lowered (slow : ¬ Commands 0 ws) (lowered : Says tool.z config.cutZ) :
    config.Permits tool ws where
  cutting _ := lowered
  travelling rapid := absurd rapid slow
  placed _ none := by
    obtain ⟨last, some, _⟩ := lowered
    rw [none] at some
    cases some

theorem permits_nil : config.Permits tool [] :=
  permits_still (by simp [Commands]) (by simp [Travels])

theorem permits_height (z : Float) : config.Permits tool (heightWords z) :=
  permits_still (by simp [Commands, heightWords, naturalValue_zero]) (by simp [Travels, heightWords])

theorem permits_home (lifted : Says tool.z config.safeZ) : config.Permits tool homeWords :=
  permits_lifted (by simp [Commands, homeWords, naturalValue_zero]) lifted

theorem permits_travel (places : Nat) (p : Float × Float) (lifted : Says tool.z config.safeZ) :
    config.Permits tool (travelWords places p) :=
  permits_lifted (by simp [Commands, travelWords, naturalValue_zero]) lifted

theorem permits_cut (places : Nat) (feed : Float) (p : Float × Float)
    (lowered : Says tool.z config.cutZ) : config.Permits tool (cutWords places feed p) :=
  permits_lowered (by simp [Commands, cutWords, naturalValue_one]) lowered

/-- After its height the tool is there. -/
theorem says_height (tool : Tool) {z : Float} (finite : isFinite z = true) :
    Says (tool.read (heightWords z)).z z :=
  ⟨reread z, by simp [Tool.read, heightWords], reread_beq finite⟩

theorem header_keepsPen (finite : config.Finite) : config.KeepsPen tool config.headerWords := by
  have mode {n : Nat} (other : (naturalValue n == 1) = false) {tool : Tool} :
      config.Permits tool [('G', naturalValue n)] :=
    permits_still (by simp [Commands, other]) (by simp [Travels])
  refine ⟨permits_nil, permits_nil, permits_nil, permits_nil, permits_nil, mode (by decide +kernel),
    mode (by decide +kernel), mode (by decide +kernel), permits_nil, permits_nil,
    permits_height _, permits_home ?_, permits_nil, trivial⟩
  exact says_height _ finite.safeZ

theorem path_keepsPen (places : Nat) (feed : Float) (path : List (Float × Float))
    (lowered : Says tool.z config.cutZ) :
    config.KeepsPen tool (path.map (cutWords places feed)) := by
  induction path generalizing tool with
  | nil => trivial
  | cons p rest ih =>
    refine ⟨permits_cut places feed p lowered, ih ?_⟩
    simpa [Tool.read, cutWords] using lowered

theorem stroke_keepsPen (finite : config.Finite) (places : Nat) (o : Outline) :
    config.KeepsPen tool (config.strokeWords places o) := by
  rw [strokeWords, keepsPen_append, keepsPen_append]
  refine ⟨⟨⟨permits_nil, permits_height _, permits_travel places o.start ?_, permits_height _,
    trivial⟩, path_keepsPen places config.feedRate o.path ?_⟩, permits_nil, trivial⟩
  · exact says_height _ finite.safeZ
  · exact says_height _ finite.cutZ

theorem strokes_keepsPen (finite : config.Finite) (places : Nat) (outlines : List Outline) :
    config.KeepsPen tool (outlines.flatMap (config.strokeWords places)) := by
  induction outlines generalizing tool with
  | nil => trivial
  | cons o rest ih =>
    rw [List.flatMap_cons, keepsPen_append]
    exact ⟨stroke_keepsPen finite places o, ih⟩

theorem footer_keepsPen (finite : config.Finite) : config.KeepsPen tool config.footerWords := by
  refine ⟨permits_nil, permits_height _, permits_home ?_, permits_nil, ?_, permits_nil, trivial⟩
  · exact says_height _ finite.safeZ
  · exact permits_still (by simp [Commands]) (by simp [Travels])

/-- The footer leads home, from wherever it finds the tool. -/
theorem footer_home (finite : config.Finite) (tool : Tool) :
    Says (tool.readAll config.footerWords).x 0 ∧ Says (tool.readAll config.footerWords).y 0 ∧
      Says (tool.readAll config.footerWords).z config.safeZ := by
  have last : tool.readAll config.footerWords =
      ⟨some (naturalValue 0), some (naturalValue 0), some (reread config.safeZ)⟩ := by
    simp [Tool.readAll, Tool.read, footerWords, heightWords, homeWords]
  rw [last]
  exact ⟨⟨_, rfl, naturalValue_zero.1⟩, ⟨_, rfl, naturalValue_zero.1⟩,
    ⟨_, rfl, reread_beq finite.safeZ⟩⟩

/-- Reading the lines of a compiled drawing in order, every G1 finds the tool at the height of the
cuts, every G0 to a point finds it at the safe height, no word for X or Y comes before the first one
for Z, and the program ends at the origin and at the safe height. Every point has to be finite, and
the count of decimals one that numbers can be read with, unless nothing is drawn. With more decimals
than numbers can be written with there is no program. -/
theorem compile_keeps_pen (finite : config.Finite) (nonnegative : 0 ≤ config.precision)
    {entities : List Entity} {outlines : List (Option Outline)}
    (traced : config.Traced entities outlines)
    (drawn : ∀ outline ∈ outlines.reduceOption, outline.Finite) :
    (outlines.reduceOption = [] ∨ config.precision ≤ readablePlaces →
      ∃ text, config.compile entities = .ok text ∧
        let lines := (Text.splitLines text).map valuedWords
        let last := Tool.start.readAll lines
        config.KeepsPen .start lines ∧ Says last.x 0 ∧ Says last.y 0 ∧ Says last.z config.safeZ) ∧
    (outlines.reduceOption ≠ [] → maxPlaces < config.precision →
      config.compile entities = .error .unusablePrecision) := by
  constructor
  · intro possible
    have usable : outlines.reduceOption ≠ [] →
        places? config.precision = .ok config.precision.toNat := by
      intro some
      exact if_pos ⟨nonnegative, places_of_readable (possible.resolve_left some)⟩
    obtain ⟨bodies, collected, written⟩ := bodies_traced traced usable
    have unbroken : ∀ line ∈ config.programLines bodies, '\n' ∉ line := by
      rw [programLines, List.forall_mem_append, List.forall_mem_append]
      exact ⟨⟨header_unbroken finite, bodies_unbroken finite written⟩, footer_unbroken finite⟩
    have nonempty : config.programLines bodies ≠ [] := by simp [programLines, header]
    have lines : (config.programLines bodies).map valuedWords = config.headerWords ++
        outlines.reduceOption.flatMap (config.strokeWords config.precision.toNat) ++
          config.footerWords :=
      map_of_hasWords (List.rel_append
        (List.rel_append (header_words finite) (bodies_words finite drawn written))
        (footer_words finite))
    refine ⟨Text.joinLines (config.programLines bodies), ?_, ?_⟩
    · rw [compile, compileBy, collected]
      rfl
    · rw [splitLines_joinLines nonempty unbroken, lines]
      refine ⟨keepsPen_append.mpr ⟨keepsPen_append.mpr ⟨header_keepsPen finite,
        strokes_keepsPen finite _ _⟩, footer_keepsPen finite⟩, ?_⟩
      rw [Tool.readAll_append]
      exact footer_home finite _
  · intro some beyond
    have unusable : places? config.precision = .error .unusablePrecision := if_neg (by omega)
    rw [compile, compileBy, bodies_unusable unusable traced some]
    rfl

/-- A feed below zero does not matter to the pen. -/
theorem compile_keeps_pen_negative :
    let config := { CompilerConfig.default with feedRate := -400 }
    config.Finite ∧ ∃ text, config.compile [.line 0 0 10 0, .polyline [(5, 5)] true] = .ok text ∧
      config.KeepsPen .start ((Text.splitLines text).map valuedWords) := by
  intro config
  have numbers : config.Finite := by constructor <;> decide
  have traced : config.Traced [.line 0 0 10 0, .polyline [(5, 5)] true]
      [some ⟨(0, 0), [(10, 0)]⟩, none] := .cons rfl (.cons rfl .nil)
  have zero : isFinite 0 = true := by decide
  have ten : isFinite 10 = true := by decide
  have drawn : ∀ outline ∈ [some (⟨(0, 0), [(10, 0)]⟩ : Outline), none].reduceOption,
      outline.Finite := by
    intro outline member
    have only : outline = ⟨(0, 0), [(10, 0)]⟩ := by simpa [List.reduceOption] using member
    subst only
    exact ⟨⟨zero, zero⟩, List.forall_mem_singleton.mpr ⟨ten, zero⟩⟩
  obtain ⟨text, compiled, kept, _⟩ :=
    (compile_keeps_pen numbers (by decide) traced drawn).1 (.inr (by decide))
  exact ⟨numbers, text, compiled, kept⟩

/-- With one decimal more than numbers can be written with there is no program to read. -/
theorem polyline_too_precise :
    let config := { CompilerConfig.default with precision := 2147483648 }
    config.Finite ∧ 0 ≤ config.precision ∧
      config.Traced [.polyline [(0, 0), (0, 0)] false] [some ⟨(0, 0), [(0, 0)]⟩] ∧
      (⟨(0, 0), [(0, 0)]⟩ : Outline).Finite ∧
      config.compile [.polyline [(0, 0), (0, 0)] false] = .error .unusablePrecision := by
  have zero : isFinite 0 = true := by decide
  refine ⟨by constructor <;> decide, by decide, .cons rfl .nil, ?_, rfl⟩
  exact ⟨⟨zero, zero⟩, List.forall_mem_singleton.mpr ⟨zero, zero⟩⟩

end CompilerConfig

end Drawing

end Toolpath
