import Mathlib
import Toolpath.Config.Simulator

/-! What becomes of the fields that a configuration is made of. Each known field replaces one setting and
leaves the others as they are, so fields of different names, set one after the other, leave those settings
at their defaults that no field is given for; a field that is not known spoils them all. -/
namespace Toolpath

namespace Json
variable {given fields : List (List UInt16 × Json)} {name : List UInt16} {value : Json}

/-- Settings, with the values given for them where one is given. -/
def overlaid (given settings : List (List UInt16 × Json)) : List (List UInt16 × Json) :=
  settings.map fun setting => (setting.1, (given.lookup setting.1).getD setting.2)

theorem overlaid_nil (settings : List (List UInt16 × Json)) : overlaid [] settings = settings := by
  simp [overlaid]

theorem lookup_of_mem (distinct : (given.map Prod.fst).Nodup) (member : (name, value) ∈ given) :
    given.lookup name = some value := by
  obtain ⟨before, after, rfl⟩ := List.append_of_mem member
  refine List.lookup_eq_some_iff.mpr ⟨before, after, rfl, fun field earlier => ?_⟩
  rw [List.map_append, List.nodup_append] at distinct
  exact bne_iff_ne.mpr (distinct.2.2 _ (List.mem_map_of_mem earlier) _ List.mem_cons_self).symm

theorem lookup_new (new : name ∉ given.map Prod.fst) : given.lookup name = none := by
  refine List.lookup_eq_none_iff.mpr fun field member => ?_
  rw [bne_iff_ne]
  rintro rfl
  exact new (List.mem_map_of_mem member)

/-- One more field is as good as one field after the others. -/
theorem overlaid_append (new : name ∉ given.map Prod.fst) (settings : List (List UInt16 × Json)) :
    overlaid (given ++ [(name, value)]) settings = overlaid [(name, value)] (overlaid given settings) := by
  rw [overlaid, overlaid, overlaid, List.map_map]
  refine List.map_congr_left fun setting _ => ?_
  by_cases same : setting.1 = name
  · simp [List.lookup_append, same, lookup_new new]
  · have other : (setting.1 == name) = false := beq_eq_false_iff_ne.mpr same
    simp [List.lookup_append, List.lookup, other]

section
variable {σ : Type} {set? : σ → List UInt16 × Json → Option σ} {c : σ}

/-- If one more field can always be set on what is made of those before, all of them can be, and the outcome is
made of them all. -/
theorem foldlM_made (Made : List (List UInt16 × Json) → σ → Prop) (before : List (List UInt16 × Json))
    (each : ∀ before c, ∀ field ∈ fields, field.1 ∉ before.map Prod.fst → Made before c →
      ∃ c', set? c field = some c' ∧ Made (before ++ [field]) c')
    (distinct : ((before ++ fields).map Prod.fst).Nodup) (made : Made before c) :
    ∃ c', fields.foldlM set? c = some c' ∧ Made (before ++ fields) c' := by
  induction fields generalizing before c with
  | nil => exact ⟨c, rfl, by rwa [List.append_nil]⟩
  | cons field fields ih =>
    have new : field.1 ∉ before.map Prod.fst := by
      rw [List.map_append, List.nodup_append] at distinct
      exact fun member => distinct.2.2 _ member _ List.mem_cons_self rfl
    obtain ⟨next, set, made⟩ := each before c field List.mem_cons_self new made
    rw [List.append_cons] at distinct ⊢
    rw [List.foldlM_cons, set]
    exact ih _ (fun before c f later => each before c f (List.mem_cons_of_mem _ later)) distinct made

/-- One field that cannot be set is enough for none to be. -/
theorem foldlM_stuck {field : List UInt16 × Json} (member : field ∈ fields)
    (stuck : ∀ c, set? c field = none) : fields.foldlM set? c = none := by
  induction fields generalizing c with
  | nil => cases member
  | cons first fields ih =>
    rw [List.foldlM_cons]
    rcases List.mem_cons.mp member with rfl | later
    · rw [stuck]
      rfl
    · cases set? c first with
      | none => rfl
      | some next => exact ih later

end

end Json

namespace CompilerSettings
variable {c : CompilerSettings} {fields : List (List UInt16 × Json)} {name : List UInt16}

def settings (c : CompilerSettings) : List (List UInt16 × Json) :=
  [(Json.key "feed_rate", c.feedRate), (Json.key "safe_z", c.safeZ), (Json.key "cut_z", c.cutZ),
    (Json.key "circle_segments", c.circleSegments), (Json.key "arc_segments", c.arcSegments),
    (Json.key "precision", c.precision)]

def names : List (List UInt16) :=
  ["feed_rate", "safe_z", "cut_z", "circle_segments", "arc_segments", "precision"].map Json.key

theorem toJson_eq (c : CompilerSettings) : c.toJson = .object c.settings := rfl

theorem names_eq (c : CompilerSettings) : c.settings.map Prod.fst = names := rfl

theorem settings_nodup (c : CompilerSettings) : (c.settings.map Prod.fst).Nodup := by
  rw [names_eq]
  decide

theorem set?_known (known : name ∈ names) (value : Json) :
    ∃ c', c.set? name value = some c' ∧ c'.settings = Json.overlaid [(name, value)] c.settings := by
  simp only [names, List.map_cons, List.map_nil, List.mem_cons, List.not_mem_nil, or_false] at known
  rcases known with rfl | rfl | rfl | rfl | rfl | rfl <;> exact ⟨_, rfl, rfl⟩

theorem set?_unknown (unknown : name ∉ names) (value : Json) : c.set? name value = none := by
  simp only [names, List.map_cons, List.map_nil, List.mem_cons, List.not_mem_nil, or_false, not_or] at unknown
  obtain ⟨feedRate, safeZ, cutZ, circleSegments, arcSegments, precision⟩ := unknown
  rw [set?, if_neg feedRate, if_neg safeZ, if_neg cutZ, if_neg circleSegments, if_neg arcSegments,
    if_neg precision]

theorem setAll?_eq (c : CompilerSettings) (fields : List (List UInt16 × Json)) :
    c.setAll? fields = fields.foldlM (fun c field => c.set? field.1 field.2) c := by
  induction fields generalizing c with
  | nil => rfl
  | cons field fields ih =>
    rw [setAll?, List.foldlM_cons]
    exact congrArg _ (funext ih)

/-- Fields that settings can be made of. -/
def Known (fields : List (List UInt16 × Json)) : Prop := ∀ field ∈ fields, field.1 ∈ names

/-- Settings made of some fields: what is given, or else the default. -/
def Made (fields : List (List UInt16 × Json)) (c : CompilerSettings) : Prop :=
  c.settings = Json.overlaid fields default.settings

theorem Made.set {field : List UInt16 × Json} (made : Made fields c) (known : field.1 ∈ names)
    (new : field.1 ∉ fields.map Prod.fst) :
    ∃ c', c.set? field.1 field.2 = some c' ∧ Made (fields ++ [field]) c' := by
  obtain ⟨next, set, changed⟩ := set?_known known field.2
  refine ⟨next, set, ?_⟩
  rw [Made, changed, made, Json.overlaid_append new]

theorem ofJson?_known (distinct : (fields.map Prod.fst).Nodup) (known : Known fields) :
    ∃ c, ofJson? (.object fields) = some c ∧ Made fields c := by
  rw [ofJson?, setAll?_eq]
  exact Json.foldlM_made Made [] (fun before c field member new made => made.set (known field member) new)
    distinct (Json.overlaid_nil _).symm

theorem ofJson?_unknown (unknown : ¬ Known fields) : ofJson? (.object fields) = none := by
  obtain ⟨field, member, unknown⟩ : ∃ field ∈ fields, field.1 ∉ names := by simpa [Known] using unknown
  rw [ofJson?, setAll?_eq]
  exact Json.foldlM_stuck member fun c => set?_unknown unknown field.2

theorem ext_settings {c c' : CompilerSettings} (same : c.settings = c'.settings) : c = c' := by
  obtain ⟨_, _, _, _, _, _⟩ := c
  obtain ⟨_, _, _, _, _, _⟩ := c'
  simpa [settings] using same

end CompilerSettings

namespace SimulatorConfig
variable {c : SimulatorConfig} {fields given : List (List UInt16 × Json)} {name : List UInt16}

/-- The settings of the simulator itself. -/
def settings (c : SimulatorConfig) : List (List UInt16 × Json) :=
  [(Json.key "name", c.name), (Json.key "speed", c.speed), (Json.key "speed_divisor", c.speedDivisor),
    (Json.key "rapid_factor", c.rapidFactor), (Json.key "tick_interval_ms", c.tickInterval),
    (Json.key "display_width", c.displayWidth), (Json.key "display_height", c.displayHeight),
    (Json.key "padding", c.padding), (Json.key "fit_margin", c.fitMargin),
    (Json.key "grid_spacing", c.gridSpacing), (Json.key "grid_major_every", c.gridMajorEvery)]

def names : List (List UInt16) :=
  ["name", "speed", "speed_divisor", "rapid_factor", "tick_interval_ms", "display_width", "display_height",
    "padding", "fit_margin", "grid_spacing", "grid_major_every"].map Json.key

def compilerName : List UInt16 := Json.key "compiler"

/-- Everything that is stored. -/
def storedFields (c : SimulatorConfig) : List (List UInt16 × Json) :=
  c.settings ++ [(compilerName, c.compiler.toJson)]

theorem toJson_eq (c : SimulatorConfig) : c.toJson = .object c.storedFields := rfl

theorem names_eq (c : SimulatorConfig) : c.settings.map Prod.fst = names := rfl

theorem storedFields_nodup (c : SimulatorConfig) : (c.storedFields.map Prod.fst).Nodup := by
  have all : (names ++ [compilerName]).Nodup := by decide
  rwa [storedFields, List.map_append, names_eq, List.map_singleton]

/-- The name comes first and the compiler last. -/
theorem forall_storedFields {p : List UInt16 × Json → Prop} : (∀ field ∈ c.storedFields, p field) ↔
    p (Json.key "name", c.name) ∧ (∀ setting ∈ c.settings.tail, p setting) ∧
      p (compilerName, c.compiler.toJson) := by
  have shape : c.storedFields =
      (Json.key "name", c.name) :: (c.settings.tail ++ [(compilerName, c.compiler.toJson)]) := rfl
  rw [shape, List.forall_mem_cons, List.forall_mem_append, List.forall_mem_singleton]

theorem set?_known (known : name ∈ names) (value : Json) :
    ∃ c', c.set? name value = some c' ∧ c'.settings = Json.overlaid [(name, value)] c.settings ∧
      c'.compiler = c.compiler := by
  simp only [names, List.map_cons, List.map_nil, List.mem_cons, List.not_mem_nil, or_false] at known
  rcases known with rfl | rfl | rfl | rfl | rfl | rfl | rfl | rfl | rfl | rfl | rfl <;> exact ⟨_, rfl, rfl, rfl⟩

theorem set?_compiler (value : Json) : c.set? compilerName value =
    (CompilerSettings.ofJson? value).map fun compiler => { c with compiler } := rfl

theorem set?_unknown (unknown : name ∉ names) (other : name ≠ compilerName) (value : Json) :
    c.set? name value = none := by
  simp only [names, List.map_cons, List.map_nil, List.mem_cons, List.not_mem_nil, or_false, not_or] at unknown
  obtain ⟨own, speed, divisor, rapid, interval, width, height, padding, margin, spacing, major⟩ := unknown
  rw [set?, if_neg own, if_neg speed, if_neg divisor, if_neg rapid, if_neg interval, if_neg width,
    if_neg height, if_neg padding, if_neg margin, if_neg spacing, if_neg major]
  exact if_neg other

theorem setAll?_eq (c : SimulatorConfig) (fields : List (List UInt16 × Json)) :
    c.setAll? fields = fields.foldlM (fun c field => c.set? field.1 field.2) c := by
  induction fields generalizing c with
  | nil => rfl
  | cons field fields ih =>
    rw [setAll?, List.foldlM_cons]
    exact congrArg _ (funext ih)

/-- What is given for the compiler: nothing, if the field is missing. -/
def compilerGiven (fields : List (List UInt16 × Json)) : Json :=
  (fields.lookup compilerName).getD (.object [])

/-- Fields that a configuration can be made of, with those given for the compiler. -/
structure Known (fields given : List (List UInt16 × Json)) : Prop where
  names : ∀ field ∈ fields, field.1 ∈ names ∨ field.1 = compilerName
  compiler : compilerGiven fields = .object given
  compilerNames : CompilerSettings.Known given

/-- A configuration made of some fields: it has what is given, or else its default. -/
structure Made (fields : List (List UInt16 × Json)) (c : SimulatorConfig) : Prop where
  settings : c.settings = Json.overlaid fields default.settings
  compiler : CompilerSettings.ofJson? (compilerGiven fields) = some c.compiler

theorem Made.own {field : List UInt16 × Json} (made : Made fields c) (known : field.1 ∈ names)
    (new : field.1 ∉ fields.map Prod.fst) :
    ∃ c', c.set? field.1 field.2 = some c' ∧ Made (fields ++ [field]) c' := by
  have other : (compilerName == field.1) = false := by
    rw [beq_eq_false_iff_ne]
    intro same
    rw [← same] at known
    exact absurd known (by decide)
  have given : compilerGiven (fields ++ [field]) = compilerGiven fields := by
    simp [compilerGiven, List.lookup_append, List.lookup, other]
  obtain ⟨next, set, settings, compiler⟩ := set?_known known field.2
  refine ⟨next, set, ?_, ?_⟩
  · rw [settings, made.settings, Json.overlaid_append new]
  · rw [given, compiler, made.compiler]

theorem Made.compile {value : Json} {compiler : CompilerSettings} (made : Made fields c)
    (found : CompilerSettings.ofJson? value = some compiler) (new : compilerName ∉ fields.map Prod.fst) :
    ∃ c', c.set? compilerName value = some c' ∧ Made (fields ++ [(compilerName, value)]) c' := by
  have given : compilerGiven (fields ++ [(compilerName, value)]) = value := by
    simp [compilerGiven, List.lookup_append, Json.lookup_new new]
  refine ⟨{ c with compiler }, by rw [set?_compiler, found]; rfl, ?_, by rw [given, found]⟩
  rw [Json.overlaid_append new, ← made.settings]
  rfl

theorem ofJson?_known (distinct : (fields.map Prod.fst).Nodup) (distinctGiven : (given.map Prod.fst).Nodup)
    (known : Known fields given) : ∃ c, ofJson? (.object fields) = some c ∧
      c.settings = Json.overlaid fields default.settings ∧
      c.compiler.settings = Json.overlaid given CompilerSettings.default.settings := by
  obtain ⟨compiler, found, compilerSettings⟩ :=
    CompilerSettings.ofJson?_known distinctGiven known.compilerNames
  have start : Made [] default := ⟨(Json.overlaid_nil _).symm, rfl⟩
  have each before c (field : List UInt16 × Json) (member : field ∈ fields)
      (new : field.1 ∉ before.map Prod.fst) (made : Made before c) :
      ∃ c', c.set? field.1 field.2 = some c' ∧ Made (before ++ [field]) c' := by
    rcases known.names field member with own | other
    · exact made.own own new
    · obtain ⟨name, value⟩ := field
      subst other
      have given : value = .object given := by
        rw [← known.compiler, compilerGiven, Json.lookup_of_mem distinct member, Option.getD_some]
      exact made.compile (given ▸ found) new
  obtain ⟨c, folded, made⟩ := Json.foldlM_made Made [] each distinct start
  have same : c.compiler = compiler := by
    have other := made.compiler
    rw [List.nil_append, known.compiler, found] at other
    exact (Option.some.inj other).symm
  exact ⟨c, by rw [ofJson?, setAll?_eq, folded], made.settings, by rw [same, compilerSettings]⟩

theorem ofJson?_unknown (unknown : ∀ given, ¬ Known fields given) : ofJson? (.object fields) = none := by
  rw [ofJson?, setAll?_eq]
  by_cases names : ∀ field ∈ fields, field.1 ∈ names ∨ field.1 = compilerName
  · cases found : fields.lookup compilerName with
    | none =>
      have given : compilerGiven fields = .object [] := by rw [compilerGiven, found, Option.getD_none]
      exact absurd ⟨names, given, List.forall_mem_nil _⟩ (unknown [])
    | some value =>
      obtain ⟨before, after, rfl, -⟩ := List.lookup_eq_some_iff.mp found
      refine Json.foldlM_stuck (List.mem_append_right before List.mem_cons_self) fun c => ?_
      rw [set?_compiler, Option.map_eq_none_iff]
      cases value with
      | object given =>
        exact CompilerSettings.ofJson?_unknown fun known =>
          unknown given ⟨names, by rw [compilerGiven, found]; rfl, known⟩
      | null | bool | int | real | text | array => rfl
  · push Not at names
    obtain ⟨field, member, own, other⟩ := names
    exact Json.foldlM_stuck member fun c => set?_unknown own other field.2

theorem ext_settings {c c' : SimulatorConfig} (same : c.settings = c'.settings)
    (compiler : c.compiler.settings = c'.compiler.settings) : c = c' := by
  have same' := CompilerSettings.ext_settings compiler
  obtain ⟨_, _, _, _, _, _, _, _, _, _, _, _⟩ := c
  obtain ⟨_, _, _, _, _, _, _, _, _, _, _, _⟩ := c'
  simp_all [settings]

end SimulatorConfig

end Toolpath
