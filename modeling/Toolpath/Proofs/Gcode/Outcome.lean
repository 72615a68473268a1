import Mathlib
import Toolpath.Proofs.Gcode.Modality
import Toolpath.Proofs.Geometry.Envelope

/-! What reading can bring. Whatever a text says, each report is a warning about the line that it was
made for, the reports come in the order of their places, and each move goes to a finite point at a
finite feed. -/
namespace Toolpath
open Decimal

namespace Diagnostic

/-- A warning about this line. -/
structure WarnsAt (d : Diagnostic) (line : Int) : Prop where
  line : d.line = line
  severity : d.severity = .warning

theorem before_trans (a b c : Diagnostic) (first : a.before b = true) (second : b.before c = true) :
    a.before c = true := by
  simp only [before, Bool.or_eq_true, Bool.and_eq_true, decide_eq_true_eq, beq_iff_eq] at *
  omega

theorem before_total (a b : Diagnostic) : (a.before b || b.before a) = true := by
  simp only [before, Bool.or_eq_true, Bool.and_eq_true, decide_eq_true_eq, beq_iff_eq]
  omega

end Diagnostic

namespace Gcode

/-! Every report is a warning about its own line. -/

theorem line_of_mem_tokens {number : Int} {line : List Char} {t : Token}
    (member : t ∈ tokens number line) : t.line = number := by
  cases code : isCommentLine (LineParts.ofLine line).stripped with
  | true =>
    rw [tokens_commentLine number code] at member
    rw [List.mem_singleton.mp member]
  | false =>
    rw [tokens_eq number code] at member
    rcases List.mem_append.mp member with word | trailing
    · obtain ⟨⟨start, p⟩, _, made⟩ := List.mem_filterMap.mp word
      cases p <;> cases made <;> rfl
    · rw [LineParts.trailingToken?, Option.mem_toList, Option.map_eq_some_iff] at trailing
      obtain ⟨text, _, rfl⟩ := trailing
      rfl

theorem warnsAt_of_mem_tokenDiagnostics {number : Int} {line : List Char} {d : Diagnostic}
    (member : d ∈ tokenDiagnostics number line) : d.WarnsAt number := by
  unfold tokenDiagnostics at member
  simp only at member
  split at member
  · cases member
  · obtain ⟨⟨start, p⟩, _, made⟩ := List.mem_filterMap.mp member
    rcases p with _ | ⟨_, _ | _⟩ | _ | _ <;> cases made <;> exact ⟨rfl, rfl⟩

namespace Block
variable {b : Block} {d : Diagnostic}

theorem warnsAt_of_mem_fill {t : Token} {present : Option Float} {set : Block}
    (member : d ∈ (b.fill t present set).2) : d.WarnsAt t.line := by
  unfold fill at member
  split at member
  · cases member
  · rw [List.mem_singleton.mp member]
    exact ⟨rfl, rfl⟩

theorem warnsAt_of_mem_takeValue {t : Token} {value : Float} (member : d ∈ (b.takeValue t value).2) :
    d.WarnsAt t.line := by
  unfold takeValue at member
  split at member
  · cases member
  · exact warnsAt_of_mem_fill member
  · exact warnsAt_of_mem_fill member
  · split at member
    · rw [List.mem_singleton.mp member]
      exact ⟨rfl, rfl⟩
    · exact warnsAt_of_mem_fill member
  · cases member
  · cases member

theorem warnsAt_of_mem_take {t : Token} (member : d ∈ (b.take t).2) : d.WarnsAt t.line := by
  unfold take at member
  cases shape : t.kind with
  | other | comment =>
    rw [shape] at member
    cases member
  | g | x | y | f =>
    rw [shape] at member
    cases number : t.number? with
    | none =>
      rw [number] at member
      rw [List.mem_singleton.mp member]
      exact ⟨rfl, rfl⟩
    | some value =>
      rw [number] at member
      exact warnsAt_of_mem_takeValue member

theorem warnsAt_of_mem_takeAll {ts : List Token} {number : Int}
    (lines : ∀ t ∈ ts, t.line = number) (member : d ∈ (b.takeAll ts).2) : d.WarnsAt number := by
  induction ts generalizing b with
  | nil => cases member
  | cons t ts ih =>
    obtain ⟨here, rest⟩ := List.forall_mem_cons.mp lines
    rcases List.mem_append.mp member with first | others
    · rw [← here]
      exact warnsAt_of_mem_take first
    · exact ih rest others

theorem warnsAt_of_mem_bothDiagnostic? (member : d ∈ b.bothDiagnostic?) : d.WarnsAt b.line := by
  unfold bothDiagnostic? at member
  split at member
  · rw [List.mem_singleton.mp member]
    exact ⟨rfl, rfl⟩
  · cases member

theorem warnsAt_of_mem_ofLine {number : Int} {line : List Char}
    (member : d ∈ (ofLine number line).2) : d.WarnsAt number := by
  unfold ofLine at member
  simp only at member
  split at member
  · exact warnsAt_of_mem_tokenDiagnostics member
  · rcases List.mem_append.mp member with found | both
    · rcases List.mem_append.mp found with found | refused
      · exact warnsAt_of_mem_tokenDiagnostics found
      · exact warnsAt_of_mem_takeAll (fun t => line_of_mem_tokens) refused
    · obtain ⟨here, warning⟩ := warnsAt_of_mem_bothDiagnostic? both
      exact ⟨here.trans (takeAll_filled _).line, warning⟩

end Block

/-- The reports about lines numbered from `number` on. -/
theorem Program.warning_of_mem_readLines {number : Int} {lines : List (List Char)} {d : Diagnostic}
    (member : d ∈ (readLines number lines).flatMap (·.2)) :
    d.severity = .warning ∧ number ≤ d.line ∧ d.line < number + lines.length := by
  induction lines generalizing number with
  | nil => cases member
  | cons line lines ih =>
    rw [List.length_cons]
    rw [readLines, List.flatMap_cons] at member
    rcases List.mem_append.mp member with first | others
    · obtain ⟨here, warning⟩ := Block.warnsAt_of_mem_ofLine first
      refine ⟨warning, ?_, ?_⟩ <;> omega
    · obtain ⟨warning, low, high⟩ := ih others
      refine ⟨warning, ?_, ?_⟩ <;> omega

/-- The reports of a text are warnings about its lines, in the order of their places. -/
theorem parse_warnings (text : List Char) :
    (∀ d ∈ (Program.parse text).diagnostics,
      d.severity = .warning ∧ 1 ≤ d.line ∧ d.line ≤ (Program.parse text).totalLines) ∧
    (Program.parse text).diagnostics.Pairwise fun d next =>
      d.line < next.line ∨ d.line = next.line ∧ d.start ≤ next.start := by
  constructor
  · intro d member
    obtain ⟨warning, low, high⟩ := Program.warning_of_mem_readLines (List.mem_mergeSort.mp member)
    refine ⟨warning, low, ?_⟩
    change d.line ≤ (Text.splitLines text).length
    omega
  · refine (List.pairwise_mergeSort Diagnostic.before_trans Diagnostic.before_total _).imp ?_
    intro d next before
    simpa [Diagnostic.before] using before

/-! The moves go to finite points at finite feeds, because a number that is not finite and a feed
below zero are refused. -/

/-- A block that gives finite values only, and no feed below zero. -/
structure Block.Finite (b : Block) : Prop where
  x : ∀ value ∈ b.x, Binary64.isFinite value = true
  y : ∀ value ∈ b.y, Binary64.isFinite value = true
  feed : ∀ value ∈ b.f, Binary64.isFinite value = true ∧ 0 ≤ value

/-- A move to a finite point at a finite feed, not below zero. -/
structure FiniteMove (move : Move Float) : Prop where
  target : Envelope.FiniteTarget move
  feed : Binary64.isFinite move.feed = true
  sign : 0 ≤ move.feed

theorem finite_of_mem_given {letter : Char} {line : List Char} {value : Float}
    (member : value ∈ given letter line) : Binary64.isFinite value = true := by
  obtain ⟨w, _, reads⟩ := List.mem_filterMap.mp member
  split at reads
  · exact (finite?_eq_some_iff.mp reads).2
  · cases reads

theorem Block.finite_of_mem_ofLine {number : Int} {line : List Char} {b : Block}
    (member : b ∈ (ofLine number line).1) : b.Finite := by
  rcases ofLine_filled number line with ⟨none, _⟩ | ⟨count, c, some, filled⟩
  · rw [none] at member
    cases member
  · rw [some] at member
    cases member
    constructor
    · rw [filled.x]
      exact fun value head => finite_of_mem_given (List.mem_of_mem_head? head)
    · rw [filled.y]
      exact fun value head => finite_of_mem_given (List.mem_of_mem_head? head)
    · rw [filled.f]
      intro value found
      have sign := List.find?_some found
      rw [decide_eq_true_eq] at sign
      exact ⟨finite_of_mem_given (List.mem_of_find?_eq_some found), sign⟩

namespace Program

theorem finite_of_mem_readLines {number : Int} {lines : List (List Char)} :
    ∀ b ∈ (readLines number lines).filterMap (·.1), b.Finite := by
  induction lines generalizing number with
  | nil => rintro b ⟨⟩
  | cons line lines ih =>
    intro b member
    obtain ⟨reading, inside, here⟩ := List.mem_filterMap.mp member
    rcases List.mem_cons.mp inside with rfl | later
    · exact Block.finite_of_mem_ofLine here
    · exact ih b (List.mem_filterMap.mpr ⟨reading, later, here⟩)

end Program

namespace Modal

/-- The values in effect are a finite point and a finite feed, not below zero. -/
structure Finite (m : Modal) : Prop where
  x : Binary64.isFinite m.x = true
  y : Binary64.isFinite m.y = true
  feed : Binary64.isFinite m.feed = true
  sign : 0 ≤ m.feed

variable {m : Modal}

theorem Finite.advance (finite : m.Finite) {b : Block} (given : b.Finite) :
    (m.advance b.x b.y b.f).Finite := by
  constructor
  · cases shape : b.x with
    | none => exact finite.x
    | some value => exact given.x value shape
  · cases shape : b.y with
    | none => exact finite.y
    | some value => exact given.y value shape
  · cases shape : b.f with
    | none => exact finite.feed
    | some value => exact (given.feed value shape).1
  · cases shape : b.f with
    | none => exact finite.sign
    | some value => exact (given.feed value shape).2

theorem Finite.afterBlock (finite : m.Finite) {b : Block} (given : b.Finite) :
    (m.afterBlock b).Finite := by
  unfold Modal.afterBlock
  split
  · exact finite.advance given
  · exact finite

theorem Finite.after (finite : m.Finite) {blocks : List Block} (given : ∀ b ∈ blocks, b.Finite) :
    (m.after blocks).Finite := by
  induction blocks generalizing m with
  | nil => exact finite
  | cons b blocks ih =>
    exact ih (finite.afterBlock (given b List.mem_cons_self))
      fun c member => given c (List.mem_cons_of_mem b member)

theorem Finite.moves (finite : m.Finite) {blocks : List Block} (given : ∀ b ∈ blocks, b.Finite) :
    ∀ move ∈ m.moves blocks, FiniteMove move := by
  induction blocks generalizing m with
  | nil => rintro move ⟨⟩
  | cons b blocks ih =>
    have next := finite.afterBlock (given b List.mem_cons_self)
    have rest := ih next fun c member => given c (List.mem_cons_of_mem b member)
    intro move member
    rw [Modal.moves] at member
    cases shape : b.kind? with
    | none =>
      simp only [shape] at member
      exact rest move member
    | some kind =>
      simp only [shape] at member
      rcases List.mem_cons.mp member with rfl | later
      · exact ⟨⟨next.x, next.y⟩, next.feed, next.sign⟩
      · exact rest move later

theorem finite_start : start.Finite := by
  constructor <;> decide

end Modal

theorem finite_of_mem_moves {text : List Char} {move : Move Float}
    (member : move ∈ (Program.parse text).moves) : FiniteMove move :=
  Modal.finite_start.moves Program.finite_of_mem_readLines move member

end Gcode

end Toolpath
