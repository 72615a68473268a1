import Mathlib
import Toolpath.Proofs.Config.Settings
import Toolpath.Proofs.Files
import Toolpath.Proofs.Json.Writing

/-! Configurations on disk. What is saved is loaded again, and a file that holds any other value gives either
the configuration made of its fields or the default. -/
namespace Toolpath
open Decimal (maxIntegerDigits)

namespace Json
variable {k : Nat} {fields : List (List UInt16 × Json)}

theorem fieldsDepth_le (each : ∀ field ∈ fields, field.2.depth ≤ k) : fieldsDepth fields ≤ k := by
  induction fields with
  | nil => exact Nat.zero_le k
  | cons field fields ih =>
    obtain ⟨first, rest⟩ := List.forall_mem_cons.mp each
    rw [fieldsDepth, fieldDepth]
    exact max_le first (ih rest)

theorem digits_le_fieldsDigits : ∀ field ∈ fields, field.2.integerDigits ≤ fieldsDigits fields := by
  induction fields with
  | nil => simp
  | cons field fields ih =>
    rw [fieldsDigits, fieldDigits]
    exact List.forall_mem_cons.mpr ⟨le_max_left _ _, fun later member => le_max_of_le_right (ih later member)⟩

/-- An integer or a finite real. -/
def isNumber : Json → Bool
  | .int _ => true
  | .real x => Binary64.isFinite x
  | .null | .bool _ | .text _ | .array _ | .object _ => false

variable {v : Json} (number : v.isNumber = true)
include number

theorem depth_of_isNumber : v.depth = 0 := by
  cases v with
  | int | real => rfl
  | null | bool | text | array | object => cases number

theorem writable_of_isNumber {depth : Nat} (short : v.integerDigits ≤ maxIntegerDigits) :
    Writable depth v := by
  cases v with
  | int n => exact .int short
  | real x => exact .real number
  | null | bool | text | array | object => cases number

end Json

namespace SimulatorConfig
variable {c : SimulatorConfig} {store after : FileStore} {path : List Char}

/-- A configuration as a program makes it: a text for its name, and numbers for everything else. -/
structure Typed (c : SimulatorConfig) (name : List Text.CodePoint) : Prop where
  name : c.name = .text name
  numbers : ∀ setting ∈ c.settings.tail, setting.2.isNumber = true
  compilerNumbers : ∀ setting ∈ c.compiler.settings, setting.2.isNumber = true

/-- The configuration with the halves in its name joined. -/
def joined (c : SimulatorConfig) (name : List Text.CodePoint) : SimulatorConfig :=
  { c with name := .text (Text.joinHalves name) }

namespace Typed
variable {name : List Text.CodePoint}

theorem depth_le (typed : c.Typed name) : c.toJson.depth ≤ 2 := by
  have name : c.name.depth ≤ 1 := by
    rw [typed.name, Json.depth]
    exact Nat.zero_le 1
  have numbers : ∀ s ∈ c.settings.tail, s.2.depth ≤ 1 := fun s member => by
    rw [Json.depth_of_isNumber (typed.numbers s member)]
    exact Nat.zero_le 1
  have compiler : c.compiler.toJson.depth ≤ 1 := by
    rw [CompilerSettings.toJson_eq, Json.depth]
    exact Nat.succ_le_succ (Json.fieldsDepth_le fun s member =>
      (Json.depth_of_isNumber (typed.compilerNumbers s member)).le)
  rw [toJson_eq, Json.depth]
  exact Nat.succ_le_succ (Json.fieldsDepth_le (forall_storedFields.mpr ⟨name, numbers, compiler⟩))

theorem writable (typed : c.Typed name) (apart : Text.Apart name)
    (short : c.toJson.integerDigits ≤ maxIntegerDigits) (depth : Nat) :
    Json.Writable (depth + 2) c.toJson := by
  rw [toJson_eq] at short ⊢
  obtain ⟨-, own, other⟩ := forall_storedFields.mp fun s member =>
    (Json.digits_le_fieldsDigits s member).trans short
  have name : Json.Writable (depth + 1) c.name := typed.name ▸ .text apart
  have numbers : ∀ s ∈ c.settings.tail, Json.Writable (depth + 1) s.2 := fun s member =>
    Json.writable_of_isNumber (typed.numbers s member) (own s member)
  have compiler : Json.Writable (depth + 1) c.compiler.toJson := by
    rw [CompilerSettings.toJson_eq] at other ⊢
    exact .object c.compiler.settings_nodup fun s member =>
      Json.writable_of_isNumber (typed.compilerNumbers s member)
        ((Json.digits_le_fieldsDigits s member).trans other)
  exact .object c.storedFields_nodup (forall_storedFields.mpr ⟨name, numbers, compiler⟩)

theorem storable (typed : c.Typed name) : ¬ storableDepth < c.toJson.depth := by
  have := typed.depth_le
  have : 2 ≤ storableDepth := by decide
  omega

theorem save_eq (typed : c.Typed name) : c.save =
    if c.toJson.integerDigits ≤ maxIntegerDigits then .ok c.stored else .error .overlongInteger := by
  rw [save, if_neg typed.storable]
  split <;> split <;> first | rfl | omega

theorem joined (typed : c.Typed name) : (c.joined name).Typed (Text.joinHalves name) :=
  ⟨rfl, typed.numbers, typed.compilerNumbers⟩

theorem integerDigits_joined (typed : c.Typed name) :
    (c.joined name).toJson.integerDigits = c.toJson.integerDigits := by
  change max (Json.integerDigits (.text (Text.joinHalves name))) (Json.fieldsDigits c.storedFields.tail) =
    max c.name.integerDigits _
  rw [typed.name]
  rfl

theorem joined_eq_self_iff (typed : c.Typed name) : c.joined name = c ↔ Text.Apart name := by
  rw [← Text.joinHalves_eq_self_iff]
  constructor
  · intro same
    have text : Json.text (Text.joinHalves name) = .text name :=
      (congrArg SimulatorConfig.name same).trans typed.name
    exact Json.text.inj text
  · intro same
    rw [SimulatorConfig.joined, same, ← typed.name]

/-- A name is written in units, for which it does not matter that halves join. -/
theorem stored_joined (typed : c.Typed name) : (c.joined name).stored = c.stored := by
  change '{' :: Json.breakLine .block 1 ++ (Json.writeText (Json.key "name") ++ ": ".toList ++
    Json.write .block 1 (.text (Text.joinHalves name))) ++ Json.writeFields .block 1 c.storedFields.tail ++
      Json.breakLine .block 0 ++ ['}'] = _
  rw [Json.write_joinHalves, ← typed.name]
  rfl

theorem pieces_joined (typed : c.Typed name) : (c.joined name).toJson.pieces 0 = c.toJson.pieces 0 := by
  change some ('{' :: Json.breakLine .block 1) :: some (Json.writeText (Json.key "name") ++ ": ".toList) ::
    Json.pieces 1 (.text (Text.joinHalves name)) ++ Json.moreFieldPieces 1 c.storedFields.tail ++
      [some (Json.breakLine .block 0 ++ ['}'])] = _
  rw [Json.pieces_joinHalves, ← typed.name]
  rfl

/-- Where no integer is too long the file holds all that is to be stored. -/
theorem written_eq (typed : c.Typed name) (short : c.toJson.integerDigits ≤ maxIntegerDigits) :
    c.written = c.stored := by
  have writable := typed.joined.writable (Text.apart_pointsOfUnits _) (typed.integerDigits_joined ▸ short) 0
  have makes := writable.makes 0
  rw [typed.pieces_joined] at makes
  rw [written, if_neg typed.storable, makes.part]
  exact typed.stored_joined

theorem saveFile_eq (typed : c.Typed name) (short : c.toJson.integerDigits ≤ maxIntegerDigits)
    (saved : store.writeText path c.stored = .ok after) : c.saveFile store path = (after, .ok ()) := by
  rw [saveFile, typed.written_eq short, saved, typed.save_eq, if_pos short]
  rfl

theorem saveFile_overlong (typed : c.Typed name) (long : maxIntegerDigits < c.toJson.integerDigits)
    (saved : store.writeText path c.toJson.writtenPart = .ok after) :
    c.saveFile store path = (after, .error .overlongInteger) := by
  rw [saveFile, written, if_neg typed.storable, saved, typed.save_eq, if_neg (not_le.mpr long)]
  rfl

end Typed

theorem known_storedFields (c : SimulatorConfig) : Known c.storedFields c.compiler.settings := by
  refine ⟨forall_storedFields.mpr ⟨.inl List.mem_cons_self, fun setting member => .inl ?_, .inr rfl⟩, rfl,
    fun setting member => ?_⟩
  · rw [← names_eq c]
    exact List.mem_map_of_mem (List.mem_of_mem_tail member)
  · rw [← CompilerSettings.names_eq c.compiler]
    exact List.mem_map_of_mem member

theorem ofJson?_toJson (c : SimulatorConfig) : ofJson? c.toJson = some c := by
  obtain ⟨c', made, settings, compiler⟩ :=
    ofJson?_known c.storedFields_nodup c.compiler.settings_nodup c.known_storedFields
  have own : Json.overlaid c.storedFields default.settings = c.settings := rfl
  have other : Json.overlaid c.compiler.settings CompilerSettings.default.settings = c.compiler.settings := rfl
  rw [toJson_eq, made, ext_settings (settings.trans own) (compiler.trans other)]

/-- No two fields of an object that a text holds have one name, those of the compiler neither. -/
theorem Known.distinct {raw : List Char} {fields given : List (List UInt16 × Json)}
    (known : Known fields given) (holds : Json.Holds raw (.object fields)) :
    (fields.map Prod.fst).Nodup ∧ (given.map Prod.fst).Nodup := by
  obtain ⟨_, _, _, _, spells, _⟩ := holds
  obtain ⟨distinct, each⟩ := spells.object_fields
  refine ⟨distinct, ?_⟩
  have compiler := known.compiler
  rw [compilerGiven] at compiler
  cases found : fields.lookup compilerName with
  | none =>
    rw [found] at compiler
    cases compiler
    exact List.nodup_nil
  | some value =>
    rw [found, Option.getD_some] at compiler
    obtain ⟨before, after, rfl, -⟩ := List.lookup_eq_some_iff.mp found
    obtain ⟨_, _, inner⟩ := each _ (List.mem_append_right before List.mem_cons_self)
    rw [compiler] at inner
    exact inner.object_fields.1

/-- A file that holds a value gives the configuration made of it, or the default. -/
theorem load_eq {bytes : List UInt8} {raw : List Char} {v : Json} (read : store.read? path = .ok bytes)
    (decoded : Text.decode? bytes = some raw) (holds : Json.Holds raw v) :
    load store path = .ok (((ofJson? v).map fun c => (c, [])).getD (default, [fallbackNote path])) := by
  have found : ofText (Text.unifyNewlines raw) = (ofJson? v).elim (.error .unsuitableValue) .ok := by
    rw [ofText, holds.unified.read]
    simp only [bind, Except.bind]
    cases ofJson? v <;> rfl
  rw [load, FileStore.readText?_eq read decoded]
  simp only [Except.bind, found]
  cases ofJson? v <;> rfl

/-- What was stored is loaded with the halves in its name joined. -/
theorem load_stored {name : List Text.CodePoint} (typed : c.Typed name)
    (short : c.toJson.integerDigits ≤ maxIntegerDigits) (saved : store.writeText path c.stored = .ok after) :
    load after path = .ok (c.joined name, []) := by
  have writable := typed.joined.writable (Text.apart_pointsOfUnits _) (typed.integerDigits_joined ▸ short)
    (Json.depthLimit - 2)
  have holds : Json.Holds c.stored (c.joined name).toJson := typed.stored_joined ▸ writable.holds
  rw [load_eq (FileStore.read?_write saved) (Text.decode?_encode _) holds, ofJson?_toJson]
  rfl

/-- A configuration that a program makes is saved and loads with every setting as it was, the name too
unless halves of pairs in it join. Only an integer too long to be written keeps it from being saved; the file
then ends where the integer should stand. A file that holds a value whose fields are known, those of the
compiler too, gives these fields and the defaults for the others; one that holds any other value gives the
default and a note. -/
theorem save_and_load (store : FileStore) (path : List Char) :
    (∀ (c : SimulatorConfig) (name : List Text.CodePoint), c.Typed name →
      ∀ place, store.locateFile path = .ok place →
        let holding (text : List Char) : FileStore :=
          { store with files := FileStore.put store.files place (Text.encode text) }
        (c.toJson.integerDigits ≤ maxIntegerDigits →
          c.saveFile store path = (holding c.stored, .ok ()) ∧
            load (holding c.stored) path = .ok (c.joined name, []) ∧
            (c.joined name = c ↔ Text.Apart name)) ∧
        (maxIntegerDigits < c.toJson.integerDigits →
          c.saveFile store path = (holding c.toJson.writtenPart, .error .overlongInteger))) ∧
    ∀ bytes raw v, store.read? path = .ok bytes → Text.decode? bytes = some raw → Json.Holds raw v →
      (∀ fields given, v = .object fields → Known fields given → ∃ c, load store path = .ok (c, []) ∧
        c.settings = Json.overlaid fields default.settings ∧
        c.compiler.settings = Json.overlaid given CompilerSettings.default.settings) ∧
      ((¬ ∃ fields given, v = .object fields ∧ Known fields given) →
        load store path = .ok (default, [fallbackNote path])) := by
  refine ⟨?_, fun bytes raw v read decoded holds => ?_⟩
  · intro c name typed place located holding
    constructor
    · intro short
      have saved : store.writeText path c.stored = .ok (holding c.stored) := FileStore.write_eq located _
      exact ⟨typed.saveFile_eq short saved, load_stored typed short saved, typed.joined_eq_self_iff⟩
    · exact fun long => typed.saveFile_overlong long (FileStore.write_eq located _)
  · have loaded := load_eq read decoded holds
    constructor
    · rintro fields given rfl known
      obtain ⟨distinct, distinctGiven⟩ := known.distinct holds
      obtain ⟨c, made, settings, compiler⟩ := ofJson?_known distinct distinctGiven known
      rw [made] at loaded
      exact ⟨c, loaded, settings, compiler⟩
    · intro unknown
      have none : ofJson? v = none := by
        cases v with
        | object fields => exact ofJson?_unknown fun given known => unknown ⟨fields, given, rfl, known⟩
        | null | bool | int | real | text | array => rfl
      rw [none] at loaded
      exact loaded

/-- Two halves that make a pair are loaded as one code point, and a power of ten may be too long to be saved. -/
theorem halves_and_digits_lost :
    let path := "sim.json".toList
    let store := FileStore.empty ['.']
    let halved := { default with name := .text [0xD83D, 0xDE00] }
    let paired := { default with name := .text [0x1F600] }
    let long := { default with speed := .int (10 ^ maxIntegerDigits) }
    (∃ saved, halved.saveFile store path = (saved, .ok ()) ∧ load saved path = .ok (paired, [])) ∧
      paired ≠ halved ∧ (long.saveFile store path).2 = .error .overlongInteger := by
  intro path store halved paired long
  refine ⟨?_, ?_, ?_⟩
  · have typed : halved.Typed [0xD83D, 0xDE00] := ⟨rfl, by decide, by decide⟩
    have short : halved.toJson.integerDigits ≤ maxIntegerDigits := by decide
    have located : store.locateFile path = .ok path := rfl
    have saved := FileStore.write_eq located (Text.encode halved.stored)
    exact ⟨_, typed.saveFile_eq short saved, load_stored typed short saved⟩
  · intro same
    exact absurd (Json.text.inj (congrArg SimulatorConfig.name same)) (by decide)
  · have typed : long.Typed ("Default".toList.map Text.pointOfChar) :=
      ⟨rfl, by decide, by decide⟩
    have speed : maxIntegerDigits < (Json.int (10 ^ maxIntegerDigits)).integerDigits :=
      Decimal.lt_length_pow (by decide)
    have overlong : maxIntegerDigits < long.toJson.integerDigits :=
      speed.trans_le (Json.digits_le_fieldsDigits (Json.key "speed", _) (.tail _ (.head _)))
    exact congrArg Prod.snd (typed.saveFile_overlong overlong (FileStore.write_eq rfl _))

/-- A file that was saved, one that gives two settings and leaves the others at their defaults, and one that
gives a setting that there is not. -/
theorem save_and_load_three_files :
    let path := "sim.json".toList
    let store := FileStore.empty ['.']
    let saved := { store with files := [(path, Text.encode preview.stored)] }
    let fields := [(Json.key "speed", Json.int 10),
      (compilerName, Json.object [(Json.key "arc_segments", .int 24)])]
    let edited := { store with files := [(path, Text.encode (Json.object fields).inLine)] }
    let odd := { store with files := [(path, Text.encode (Json.object [(Json.key "spindle", .int 1)]).inLine)] }
    let compiler := { CompilerSettings.default with arcSegments := .int 24 }
    (preview.saveFile store path = (saved, .ok ()) ∧ load saved path = .ok (preview, [])) ∧
      load edited path = .ok ({ default with speed := .int 10, compiler }, []) ∧
      load odd path = .ok (default, [fallbackNote path]) := by
  intro path store saved fields edited odd compiler
  refine ⟨?_, ?_, ?_⟩
  · have typed : preview.Typed ("Preview".toList.map Text.pointOfChar) :=
      ⟨rfl, by decide, by decide⟩
    obtain ⟨written, loaded, same⟩ :=
      ((save_and_load store path).1 preview _ typed path rfl).1 (by decide)
    rw [same.mpr (by decide)] at loaded
    exact ⟨written, loaded⟩
  · have arcs : Json.Writable (Json.depthLimit - 2 + 1) (.object [(Json.key "arc_segments", .int 24)]) :=
      .object (by decide) (List.forall_mem_singleton.mpr (.int (by decide)))
    have written : Json.Writable Json.depthLimit (.object fields) :=
      .object (by decide) (List.forall_mem_cons.mpr ⟨.int (by decide), List.forall_mem_singleton.mpr arcs⟩)
    have known : Known fields [(Json.key "arc_segments", .int 24)] :=
      ⟨by decide, rfl, by unfold CompilerSettings.Known; decide⟩
    obtain ⟨held, -⟩ := (save_and_load edited path).2 _ _ _ rfl (Text.decode?_encode _) written.holds
    obtain ⟨c, loaded, own, other⟩ := held fields _ rfl known
    have same : c = { default with speed := .int 10, compiler } := ext_settings own other
    rw [loaded, same]
  · have written : Json.Writable Json.depthLimit (.object [(Json.key "spindle", .int 1)]) :=
      .object (by decide) (List.forall_mem_singleton.mpr (.int (by decide)))
    refine ((save_and_load odd path).2 _ _ _ rfl (Text.decode?_encode _) written.holds).2 ?_
    rintro ⟨fields, given, same, known⟩
    cases same
    exact absurd (known.names _ (List.mem_singleton_self _)) (by decide)

end SimulatorConfig

end Toolpath
