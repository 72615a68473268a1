import Mathlib
import Toolpath.Proofs.FrontEnd.Spans
import Toolpath.Proofs.Text.Utf16

/-! Formats over a block of text. A block is as long as its text in units, and a format that is set lies over the
units counted from where it starts, as far as the block goes. The places of spans are numbers of characters, so a
unit comes to have the look of the place with its number. -/
namespace Toolpath

/-- What is asked of a formatter: formats lie over units, and a later one replaces what it lies over. -/
structure Formatter.Lawful {β : Type} (f : Formatter β) : Prop where
  size_fresh : ∀ text, f.size (f.fresh text) = Text.unitCount text
  fresh_bare : ∀ text unit, f.formatAt (f.fresh text) unit = none
  size_kept : ∀ block span, f.size (f.setFormat block span) = f.size block
  laid : ∀ block span unit, span.start ≤ unit → unit < span.start + span.count → unit < f.size block →
    f.formatAt (f.setFormat block span) unit = some span.look
  others_kept : ∀ block span unit,
    ¬ (span.start ≤ unit ∧ unit < span.start + span.count ∧ unit < f.size block) →
    f.formatAt (f.setFormat block span) unit = f.formatAt block unit

/-- Blocks that list the format of each unit. -/
def Formatter.listing : Formatter (List (Option TextLook)) where
  fresh text := List.replicate (Text.unitCount text) none
  size := List.length
  setFormat block span := block.mapIdx fun unit format =>
    if span.start ≤ unit ∧ unit < span.start + span.count then some span.look else format
  formatAt block unit := (block[unit]?).join

theorem Formatter.listing_lawful : listing.Lawful where
  size_fresh _ := List.length_replicate
  fresh_bare text unit := by
    simp only [listing, List.getElem?_replicate]
    split <;> rfl
  size_kept _ _ := List.length_mapIdx
  laid block span unit low high inside := by
    change unit < block.length at inside
    simp [listing, inside, low, high]
  others_kept block span unit outside := by
    by_cases inside : unit < block.length
    · have apart : ¬ (span.start ≤ unit ∧ unit < span.start + span.count) := fun covers =>
        outside ⟨covers.1, covers.2, inside⟩
      simp [listing, inside, apart]
    · simp [listing, inside]

namespace Highlight
open Gcode

theorem commentSpans_within {span : TextSpan} {position : Nat} {cs : List Char}
    (member : span ∈ commentSpans position cs) : span.start + span.count ≤ position + cs.length := by
  rw [commentSpans_split] at member
  obtain ⟨⟨start, p⟩, placed, given⟩ := List.mem_flatMap.mp member
  have inside := Piece.stop_le placed
  rw [Piece.flatMap_text_split] at inside
  cases p with
  | comment text closed =>
    rw [List.mem_singleton.mp given]
    exact inside
  | blank c => cases given
  | word w => cases given
  | junk text => cases given

theorem wordSpans_within {span : TextSpan} {code : List Char} (member : span ∈ wordSpans code) :
    span.start + span.count ≤ code.length := by
  obtain ⟨⟨start, w⟩, found, spanned⟩ := List.mem_filterMap.mp member
  obtain ⟨look, _, rfl⟩ := Option.map_eq_some_iff.mp spanned
  have inside := (words_within found).2
  rwa [Nat.zero_add] at inside

/-- No span reaches over the end of the line. -/
theorem spans_within {span : TextSpan} {line : List Char} (member : span ∈ spans line) :
    span.start + span.count ≤ line.length := by
  have front := (List.takeWhile_sublist (· != ';') (l := line)).length_le
  unfold spans at member
  split at member
  · rw [List.mem_singleton.mp member]
    exact (Nat.zero_add _).le
  · rcases List.mem_append.mp member with before | comment
    · rcases List.mem_append.mp before with trailing | word
      · split at trailing
        · cases trailing
        · rw [List.mem_singleton.mp trailing]
          exact (Nat.add_sub_cancel' front).le
      · exact (wordSpans_within word).trans front
    · have inside := commentSpans_within comment
      rw [Nat.zero_add] at inside
      exact inside.trans front

section
variable {β : Type} {f : Formatter β} (lawful : f.Lawful)
include lawful

theorem formatAt_setFormat (block : β) (span : TextSpan) (unit : Nat) :
    f.formatAt (f.setFormat block span) unit =
      if span.Covers unit ∧ unit < f.size block then some span.look else f.formatAt block unit := by
  split
  · rename_i covered
    exact lawful.laid block span unit covered.1.1 covered.1.2 covered.2
  · rename_i apart
    exact lawful.others_kept block span unit fun covered => apart ⟨⟨covered.1, covered.2.1⟩, covered.2.2⟩

theorem formatAt_foldl (spans : List TextSpan) (block : β) {unit : Nat} (inside : unit < f.size block) :
    f.formatAt (spans.foldl f.setFormat block) unit = (lookAt spans unit).or (f.formatAt block unit) := by
  induction spans generalizing block with
  | nil => rfl
  | cons span rest ih =>
    rw [List.foldl_cons, ih _ ((lawful.size_kept block span).symm ▸ inside), formatAt_setFormat lawful,
      lookAt_cons, Option.or_assoc]
    congr 1
    by_cases covered : span.Covers unit
    · rw [if_pos ⟨covered, inside⟩, if_pos covered]
      rfl
    · rw [if_neg fun both => covered both.1, if_neg covered]
      rfl

theorem formatAt_foldl_outside (spans : List TextSpan) (block : β) {unit : Nat} (outside : ¬ unit < f.size block) :
    f.formatAt (spans.foldl f.setFormat block) unit = f.formatAt block unit := by
  induction spans generalizing block with
  | nil => rfl
  | cons span rest ih =>
    rw [List.foldl_cons, ih _ ((lawful.size_kept block span).symm ▸ outside), formatAt_setFormat lawful,
      if_neg fun both => outside both.2]

/-- A unit has the look that the spans give to the place with its number. -/
theorem formatAt_highlight (line : List Char) (unit : Nat) :
    f.formatAt (highlight f line) unit = lookAt (spans line) unit := by
  by_cases inside : unit < f.size (f.fresh line)
  · rw [highlight, formatAt_foldl lawful _ _ inside, lawful.fresh_bare, Option.or_none]
  · have beyond : lookAt (spans line) unit = none := lookAt_eq_none fun span member covers => by
      have ends := spans_within member
      have longer := Text.length_le_unitCount line
      have ahead := covers.2
      rw [lawful.size_fresh] at inside
      omega
    rw [highlight, formatAt_foldl_outside lawful _ _ inside, lawful.fresh_bare, beyond]

theorem formatAt_beyond {line : List Char} {unit : Nat} (beyond : line.length ≤ unit) :
    f.formatAt (highlight f line) unit = none := by
  rw [formatAt_highlight lawful]
  exact lookAt_eq_none fun span member covers => absurd (covers.2.trans_le (spans_within member)) (by omega)

end

end Highlight

end Toolpath
