import Merkle.Error

/-!
# Digests as hexadecimal text

A digest is written in 64 lower-case digits. Reading looks at the length of the text first, then at
its characters from left to right, and last at the count of bytes. Every text is one of four cases
with an answer each (`text_cases`).
-/
namespace Merkle.Digest

/-- The 64 digits. -/
def toHex (d : Digest) : String := Text.ofAscii (Hex.encode d.bytes)

/-- The first sixteen digits, for messages. -/
def summary (d : Digest) : String := "Hash(" ++ Text.ofAscii (Hex.encode (d.bytes.take 8)) ++ ")"

/-- A decoded text as a digest, if it has the right count of bytes. -/
def ofDecoded (bytes : List UInt8) : Except Error Digest :=
  match ofBytes? bytes with
  | some d => .ok d
  | none => .error { kind := .invalidHash, reason := .digestWidth bytes.length }

/-- The digest that a text of 64 digits stands for, in either case. -/
def ofHex (text : String) : Except Error Digest :=
  match Hex.decode (Text.utf8 text) with
  | .ok bytes => ofDecoded bytes
  | .error fault => .error (.ofHexFault fault)

/-! ## The answer in each case -/

open Hex (IsDigit FirstBad encode lowerByte)

variable {text : String}

theorem ofHex_of_odd (odd : (Text.utf8 text).length % 2 = 1) :
    ofHex text = .error (.ofHexFault .oddLength) := by
  simp only [ofHex, Hex.decode_of_odd odd]

theorem ofHex_of_firstBad {position : Nat} {byte : UInt8}
    (even : (Text.utf8 text).length % 2 = 0) (first : FirstBad (Text.utf8 text) position byte) :
    ofHex text = .error (.ofHexFault (.badCharacter byte position)) := by
  simp only [ofHex, Hex.decode_of_firstBad even first]

/-- Digits of an even count stand for half as many bytes. -/
theorem length_of_encode {bytes written : List UInt8}
    (same : encode bytes = written.map lowerByte) : written.length = 2 * bytes.length := by
  rw [← List.length_map lowerByte, ← same, Hex.length_encode]

theorem ofHex_of_digits (width : (Text.utf8 text).length = 64)
    (all : ∀ b ∈ Text.utf8 text, IsDigit b) :
    ∃ d, ofHex text = .ok d ∧ encode d.bytes = (Text.utf8 text).map lowerByte := by
  obtain ⟨bytes, read, written⟩ := Hex.decode_of_digits (by omega) all
  have length := length_of_encode written
  refine ⟨⟨bytes, by omega⟩, ?_, written⟩
  simp only [ofHex, read, ofDecoded, ofBytes?]
  rw [dif_pos (by omega)]

/-- The count of bytes is looked at last. -/
theorem ofHex_of_width (even : (Text.utf8 text).length % 2 = 0)
    (all : ∀ b ∈ Text.utf8 text, IsDigit b) (other : (Text.utf8 text).length / 2 ≠ 32) :
    ofHex text = .error
      { kind := .invalidHash, reason := .digestWidth ((Text.utf8 text).length / 2) } := by
  obtain ⟨bytes, read, written⟩ := Hex.decode_of_digits even all
  have length := length_of_encode written
  have count : bytes.length = (Text.utf8 text).length / 2 := by omega
  simp only [ofHex, read, ofDecoded, ofBytes?]
  rw [dif_neg (by omega), count]

/-- Every text has an odd length, or a first byte that is no digit, or is all digits, of the right
count or another. -/
theorem text_cases (text : String) :
    (Text.utf8 text).length % 2 = 1 ∨
    ((Text.utf8 text).length % 2 = 0 ∧
      ∃ position byte, FirstBad (Text.utf8 text) position byte) ∨
    ((Text.utf8 text).length % 2 = 0 ∧ (∀ b ∈ Text.utf8 text, IsDigit b) ∧
      (Text.utf8 text).length / 2 ≠ 32) ∨
    ((Text.utf8 text).length = 64 ∧ ∀ b ∈ Text.utf8 text, IsDigit b) := by
  by_cases odd : (Text.utf8 text).length % 2 = 1
  · exact .inl odd
  · have even : (Text.utf8 text).length % 2 = 0 := by omega
    by_cases some_bad : ∃ b ∈ Text.utf8 text, ¬ IsDigit b
    · exact .inr (.inl ⟨even, Hex.exists_firstBad some_bad⟩)
    · have all : ∀ b ∈ Text.utf8 text, IsDigit b := fun b here =>
        Decidable.byContradiction fun bad => some_bad ⟨b, here, bad⟩
      by_cases width : (Text.utf8 text).length / 2 = 32
      · exact .inr (.inr (.inr ⟨by omega, all⟩))
      · exact .inr (.inr (.inl ⟨even, all, width⟩))

theorem rejected_iff :
    (∃ error, ofHex text = .error error) ↔
      (Text.utf8 text).length ≠ 64 ∨ ∃ b ∈ Text.utf8 text, ¬ IsDigit b := by
  rcases text_cases text with odd | ⟨even, position, byte, first⟩ | ⟨even, all, other⟩ |
    ⟨width, all⟩
  · exact iff_of_true ⟨_, ofHex_of_odd odd⟩ (.inl (by omega))
  · have here : byte ∈ Text.utf8 text := List.mem_of_getElem? first.here
    exact iff_of_true ⟨_, ofHex_of_firstBad even first⟩ (.inr ⟨byte, here, first.bad⟩)
  · exact iff_of_true ⟨_, ofHex_of_width even all other⟩ (.inl (by omega))
  · obtain ⟨d, read, -⟩ := ofHex_of_digits width all
    apply iff_of_false
    · intro ⟨error, rejected⟩
      rw [read] at rejected
      cases rejected
    · intro wrong
      rcases wrong with other | ⟨b, here, bad⟩
      · exact other width
      · exact bad (all b here)

end Merkle.Digest
