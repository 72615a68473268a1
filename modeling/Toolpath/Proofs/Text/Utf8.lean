import Mathlib
import Toolpath.Text.Utf8

/-! What is encoded in UTF-8 is read back. A character takes one to four bytes; its leading byte says how
many follow and in which range the first of them lies, and the bits of all of them are its number. -/
namespace Toolpath.Text

theorem decodeFrom_cons (state : Utf8State) (byte : UInt8) (rest : List UInt8) :
    decodeFrom state (byte :: rest) =
      (takeByte state byte.toNat).1 ++ decodeFrom (takeByte state byte.toNat).2 rest := rfl

section
variable {lead byte bits owed low high : Nat}

theorem takeByte_lead (follows : followers? lead = some (owed, low, high)) :
    takeByte .between lead = ([], .within (leadBits lead) owed low high) := by
  have above : ¬ lead < 0x80 := by
    intro below
    unfold followers? at follows
    split_ifs at follows <;> omega
  rw [takeByte, beginCharacter, if_neg above, follows]

theorem takeByte_last (inside : low ≤ byte ∧ byte ≤ high) :
    takeByte (.within bits 1 low high) byte =
      ([some (Char.ofNat (bits * 64 + byte % 64))], .between) := by
  simp only [takeByte, if_pos inside]
  rfl

theorem takeByte_more (inside : low ≤ byte ∧ byte ≤ high) :
    takeByte (.within bits (owed + 2) low high) byte =
      ([], .within (bits * 64 + byte % 64) (owed + 1) 0x80 0xBF) := by
  simp only [takeByte, if_pos inside]
  rw [if_neg (by omega)]
  rfl

end

/-! The bytes of a character, by how many they are. The range of the second byte keeps out what has a
shorter form, what is half of a pair and what lies past the last character. -/

theorem byte_toNat {n : Nat} (small : n < 256) : (UInt8.ofNat n).toNat = n := by
  rw [UInt8.toNat_ofNat']
  exact Nat.mod_eq_of_lt small

section
variable {v : Nat} (rest : List UInt8)

theorem decodeFrom_one (high : v ≤ 0x7F) :
    decodeFrom .between (UInt8.ofNat v :: rest) =
      some (Char.ofNat v) :: decodeFrom .between rest := by
  have small : v < 0x80 := by omega
  rw [decodeFrom_cons, byte_toNat (by omega), takeByte, beginCharacter, if_pos small]
  rfl

theorem decodeFrom_two (low : 0x7F < v) (high : v ≤ 0x7FF) :
    decodeFrom .between (UInt8.ofNat (v / 64 % 32 + 0xC0) :: UInt8.ofNat (v % 64 + 0x80) :: rest) =
      some (Char.ofNat v) :: decodeFrom .between rest := by
  have follows : followers? (v / 64 % 32 + 0xC0) = some (1, 0x80, 0xBF) := by
    rw [followers?, if_pos (by omega)]
  have lead : leadBits (v / 64 % 32 + 0xC0) = v / 64 := by
    rw [leadBits, if_pos (by omega)]
    omega
  have whole : v / 64 * 64 + (v % 64 + 0x80) % 64 = v := by omega
  rw [decodeFrom_cons, byte_toNat (by omega), takeByte_lead follows, decodeFrom_cons,
    byte_toNat (by omega), takeByte_last (by omega), lead, whole]
  rfl

theorem decodeFrom_three (low : 0x7FF < v) (high : v ≤ 0xFFFF) (single : v < 0xD800 ∨ 0xDFFF < v) :
    decodeFrom .between (UInt8.ofNat (v / 4096 % 16 + 0xE0) :: UInt8.ofNat (v / 64 % 64 + 0x80) ::
        UInt8.ofNat (v % 64 + 0x80) :: rest) =
      some (Char.ofNat v) :: decodeFrom .between rest := by
  obtain ⟨first, last, follows, inside⟩ : ∃ first last,
      followers? (v / 4096 % 16 + 0xE0) = some (2, first, last) ∧
        first ≤ v / 64 % 64 + 0x80 ∧ v / 64 % 64 + 0x80 ≤ last := by
    unfold followers?
    split_ifs <;> first | exact ⟨_, _, rfl, by omega, by omega⟩ | omega
  have lead : leadBits (v / 4096 % 16 + 0xE0) = v / 4096 := by
    rw [leadBits, if_neg (by omega), if_pos (by omega)]
    omega
  have whole : (v / 4096 * 64 + (v / 64 % 64 + 0x80) % 64) * 64 + (v % 64 + 0x80) % 64 = v := by
    omega
  rw [decodeFrom_cons, byte_toNat (by omega), takeByte_lead follows, decodeFrom_cons,
    byte_toNat (by omega), takeByte_more inside, decodeFrom_cons, byte_toNat (by omega),
    takeByte_last (by omega), lead, whole]
  rfl

theorem decodeFrom_four (low : 0xFFFF < v) (high : v < 0x110000) :
    decodeFrom .between (UInt8.ofNat (v / 262144 % 8 + 0xF0) ::
        UInt8.ofNat (v / 4096 % 64 + 0x80) :: UInt8.ofNat (v / 64 % 64 + 0x80) ::
        UInt8.ofNat (v % 64 + 0x80) :: rest) =
      some (Char.ofNat v) :: decodeFrom .between rest := by
  obtain ⟨first, last, follows, inside⟩ : ∃ first last,
      followers? (v / 262144 % 8 + 0xF0) = some (3, first, last) ∧
        first ≤ v / 4096 % 64 + 0x80 ∧ v / 4096 % 64 + 0x80 ≤ last := by
    unfold followers?
    split_ifs <;> first | exact ⟨_, _, rfl, by omega, by omega⟩ | omega
  have lead : leadBits (v / 262144 % 8 + 0xF0) = v / 262144 := by
    rw [leadBits, if_neg (by omega), if_neg (by omega)]
    omega
  have whole : ((v / 262144 * 64 + (v / 4096 % 64 + 0x80) % 64) * 64 +
      (v / 64 % 64 + 0x80) % 64) * 64 + (v % 64 + 0x80) % 64 = v := by
    omega
  rw [decodeFrom_cons, byte_toNat (by omega), takeByte_lead follows, decodeFrom_cons,
    byte_toNat (by omega), takeByte_more inside, decodeFrom_cons, byte_toNat (by omega),
    takeByte_more (by omega), decodeFrom_cons, byte_toNat (by omega), takeByte_last (by omega),
    lead, whole]
  rfl

end

theorem decodeFrom_char (c : Char) (rest : List UInt8) :
    decodeFrom .between (String.utf8EncodeChar c ++ rest) = some c :: decodeFrom .between rest := by
  have valid : c.toNat < 0xD800 ∨ 0xDFFF < c.toNat ∧ c.toNat < 0x110000 := c.valid
  have bytes : String.utf8EncodeChar c = if c.toNat ≤ 0x7F then _ else if c.toNat ≤ 0x7FF then _
    else if c.toNat ≤ 0xFFFF then _ else _ := rfl
  have decoded : decodeFrom .between (String.utf8EncodeChar c ++ rest) =
      some (Char.ofNat c.toNat) :: decodeFrom .between rest := by
    have number : c.val.toNat = c.toNat := rfl
    rw [bytes]
    split_ifs with one two three
    · exact decodeFrom_one rest one
    · exact decodeFrom_two rest (by omega) two
    · exact decodeFrom_three rest (by omega) three (by omega)
    · exact decodeFrom_four rest (by omega) (by omega)
  rw [decoded, Char.ofNat_toNat]

theorem decodeFrom_encode (cs : List Char) : decodeFrom .between (encode cs) = cs.map some := by
  induction cs with
  | nil => rfl
  | cons c cs ih => rw [encode, List.flatMap_cons, decodeFrom_char, ← encode, ih, List.map_cons]

/-- A text that was encoded is read back, and without a fault. -/
theorem decode?_encode (cs : List Char) : decode? (encode cs) = some cs := by
  rw [decode?, decodeFrom_encode]
  induction cs with
  | nil => rfl
  | cons c cs ih => rw [List.map_cons, List.mapM_cons, ih]; rfl

/-! Where decoding fails there is a first fault. -/

theorem mapM_id_eq_none_iff {α : Type} (out : List (Option α)) : out.mapM id = none ↔ none ∈ out := by
  induction out with
  | nil => exact iff_of_false (fun failed => by cases failed) List.not_mem_nil
  | cons c? rest ih =>
    cases c? with
    | none => exact iff_of_true rfl List.mem_cons_self
    | some c =>
      rw [List.mapM_cons, List.mem_cons, ← ih]
      cases rest.mapM id <;> simp

/-- There is no fault to find exactly if decoding finds none. -/
theorem faultFrom_eq_none_iff (state : Utf8State) (start place : Nat) (bytes : List UInt8) :
    faultFrom state start place bytes = none ↔ none ∉ decodeFrom state bytes := by
  induction bytes generalizing state start place with
  | nil => cases state <;> simp [faultFrom, decodeFrom]
  | cons byte rest ih =>
    rw [decodeFrom_cons, List.mem_append, not_or]
    unfold faultFrom
    cases state with
    | between =>
      cases broken : (takeByte .between byte.toNat).1.contains none <;> simp_all
    | within bits owed low high =>
      cases broken : (takeByte (.within bits owed low high) byte.toNat).1.contains none <;> simp_all

theorem firstFault?_eq_none_iff (bytes : List UInt8) : firstFault? bytes = none ↔ decode? bytes ≠ none := by
  rw [firstFault?, faultFrom_eq_none_iff, decode?, ne_eq, mapM_id_eq_none_iff]

example : firstFault? [0x41, 0xE2, 0x82, 0x41] = some ⟨1, 2, "invalid continuation byte"⟩ := by decide

end Toolpath.Text
