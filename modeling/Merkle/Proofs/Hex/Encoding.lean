import Mathlib.Data.String.Basic
import Merkle.Digest.Hex

/-!
# Encoding: digests and their texts correspond, also in their order

Digests are written without loss and read back (`ofHex_toHex`). The texts that are read are those of
64 digits, and each of them is the text of its digest up to the case of its letters
(`toHex_of_ofHex`). Digits are in the order of their values, though in ASCII letters stand apart
from `0` to `9`. So texts compare as their digests do (`compare_toHex`).
-/
namespace Merkle.Hex

/-- The digits that are written. -/
def lowerDigits : List UInt8 := Text.utf8 "0123456789abcdef"

variable {b : UInt8} {v w : Nat}

/-! ## Digits that are written -/

theorem digit_mem (small : v < 16) : digit v ∈ lowerDigits := by
  have all : ∀ v : Fin 16, digit v.val ∈ lowerDigits := by decide +kernel
  exact all ⟨v, small⟩

theorem isDigit_of_lower (lower : b ∈ lowerDigits) : IsDigit b := by
  have all : ∀ b ∈ lowerDigits, IsDigit b := by decide +kernel
  exact all b lower

/-- Digits are ASCII. -/
theorem IsDigit.ascii (digit : IsDigit b) : b < 128 := by
  have all : ∀ b ∈ digits, b < 128 := by decide +kernel
  exact all b digit

theorem encode_lower (bytes : List UInt8) : ∀ b ∈ encode bytes, b ∈ lowerDigits := by
  induction bytes with
  | nil => exact List.forall_mem_nil _
  | cons b bytes ih =>
    have bound := b.toNat_lt
    simp only [encode, List.forall_mem_cons]
    exact ⟨digit_mem (by omega), digit_mem (by omega), ih⟩

theorem encode_ascii (bytes : List UInt8) : ∀ b ∈ encode bytes, b < 128 := by
  intro b here
  exact (isDigit_of_lower (encode_lower bytes b here)).ascii

/-! ## The order of digits -/

theorem compare_digit (small : v < 16) (small' : w < 16) :
    compare (digit v) (digit w) = compare v w := by
  have all : ∀ v w : Fin 16, compare (digit v.val) (digit w.val) = compare v.val w.val := by
    decide +kernel
  exact all ⟨v, small⟩ ⟨w, small'⟩

/-- Numbers compare by their high halves first. -/
theorem compare_halves (n m : Nat) :
    (compare (n / 16) (m / 16)).then (compare (n % 16) (m % 16)) = compare n m := by
  rcases Nat.lt_trichotomy (n / 16) (m / 16) with below | same | above
  · have less : n < m := by omega
    rw [Nat.compare_eq_lt.mpr below, Nat.compare_eq_lt.mpr less, Ordering.lt_then]
  · rw [Nat.compare_eq_eq.mpr same, Ordering.eq_then]
    rcases Nat.lt_trichotomy (n % 16) (m % 16) with below | same' | above
    · have less : n < m := by omega
      rw [Nat.compare_eq_lt.mpr below, Nat.compare_eq_lt.mpr less]
    · have equal : n = m := by omega
      rw [Nat.compare_eq_eq.mpr same', Nat.compare_eq_eq.mpr equal]
    · have greater : m < n := by omega
      rw [Nat.compare_eq_gt.mpr above, Nat.compare_eq_gt.mpr greater]
  · have greater : m < n := by omega
    rw [Nat.compare_eq_gt.mpr above, Nat.compare_eq_gt.mpr greater, Ordering.gt_then]

/-- Bytes compare as the digits that they are written in. -/
theorem compare_encode (bs cs : List UInt8) : compare (encode bs) (encode cs) = compare bs cs := by
  induction bs generalizing cs with
  | nil => cases cs <;> rfl
  | cons b bs ih =>
    cases cs with
    | nil => rfl
    | cons c cs =>
      have bound := b.toNat_lt
      have bound' := c.toNat_lt
      simp only [encode, List.compare_cons_cons]
      rw [compare_digit (by omega) (by omega), compare_digit (by omega) (by omega), ih,
        ← Ordering.then_assoc, compare_halves, UInt8.compare_eq_toNat_compare_toNat]

end Merkle.Hex

namespace Merkle.Text

/-! ## The order of texts -/

theorem ofAscii_lt_cons {b c : UInt8} {bs cs : List UInt8} :
    ofAscii (b :: bs) < ofAscii (c :: cs) ↔
      b.toNat < c.toNat ∨ b = c ∧ ofAscii bs < ofAscii cs := by
  have lt_byte : Char.ofNat b.toNat < Char.ofNat c.toNat ↔ b.toNat < c.toNat := by
    rw [Char.lt_def, UInt32.lt_iff_toNat_lt]
    change (Char.ofNat b.toNat).toNat < (Char.ofNat c.toNat).toNat ↔ _
    rw [toNat_ofNat_byte, toNat_ofNat_byte]
  simp only [ofAscii, List.map_cons, String.lt_iff, String.toList_ofList, List.cons_lt_cons_iff,
    lt_byte, ofNat_byte_inj]

/-- Bytes in order have their texts in order. -/
theorem compare_lt_iff_ofAscii {bs cs : List UInt8} :
    compare bs cs = .lt ↔ ofAscii bs < ofAscii cs := by
  induction bs generalizing cs with
  | nil =>
    cases cs with
    | nil => exact iff_of_false (by decide) (lt_irrefl _)
    | cons c cs => exact iff_of_true rfl (String.lt_iff.mpr (by simp [ofAscii]))
  | cons b bs ih =>
    cases cs with
    | nil =>
      have none_below : ¬ ofAscii (b :: bs) < ofAscii [] := by
        rw [String.lt_iff]
        exact List.not_lt_nil _
      exact iff_of_false (by simp) none_below
    | cons c cs =>
      rw [List.compare_cons_cons, Ordering.then_eq_lt, ih, ofAscii_lt_cons,
        UInt8.compare_eq_toNat_compare_toNat, Nat.compare_eq_lt, Nat.compare_eq_eq,
        UInt8.toNat_inj]

/-- Texts of bytes compare as the bytes do. -/
theorem compare_ofAscii (bs cs : List UInt8) :
    compare (ofAscii bs) (ofAscii cs) = compare bs cs := by
  cases order : compare bs cs with
  | lt => exact compare_lt_iff_lt.mpr (compare_lt_iff_ofAscii.mp order)
  | eq => exact compare_eq_iff_eq.mpr (by rw [Std.LawfulEqOrd.eq_of_compare order])
  | gt =>
    rw [Std.OrientedOrd.eq_swap, Ordering.swap_eq_gt] at order
    exact compare_gt_iff_gt.mpr (compare_lt_iff_ofAscii.mp order)

/-! ## Lower case -/

/-- The letters `A` to `F` in lower case; other characters stay. -/
def lowerChar (c : Char) : Char := if 'A' ≤ c ∧ c ≤ 'F' then Char.ofNat (c.toNat + 32) else c

/-- A text with the letters `A` to `F` in lower case. -/
def lower (s : String) : String := s.map lowerChar

theorem lowerChar_ofNat_byte (b : UInt8) :
    lowerChar (Char.ofNat b.toNat) = Char.ofNat (Hex.lowerByte b).toNat := by
  have all : ∀ n : Fin 256, lowerChar (Char.ofNat (UInt8.ofNat n.val).toNat) =
      Char.ofNat (Hex.lowerByte (UInt8.ofNat n.val)).toNat := by decide +kernel
  have here := all ⟨b.toNat, b.toNat_lt⟩
  rwa [UInt8.ofNat_toNat] at here

theorem lower_ofAscii (bytes : List UInt8) :
    lower (ofAscii bytes) = ofAscii (bytes.map Hex.lowerByte) := by
  apply String.toList_inj.mp
  simp [lower, ofAscii, String.toList_map, lowerChar_ofNat_byte]

end Merkle.Text

namespace Merkle.Digest
open Hex (IsDigit encode lowerByte)

variable {text : String} {d : Digest}

/-! ## Digests -/

@[simp] theorem utf8_toHex (d : Digest) : Text.utf8 d.toHex = encode d.bytes :=
  Text.utf8_ofAscii (Hex.encode_ascii d.bytes)

@[simp] theorem length_toHex (d : Digest) : d.toHex.length = 64 := by
  rw [toHex, Text.length_ofAscii, Hex.length_encode, d.length_bytes]

theorem toHex_digits (d : Digest) : ∀ c ∈ d.toHex.toList, c ∈ "0123456789abcdef".toList := by
  intro c here
  rw [toHex, Text.ofAscii, String.toList_ofList] at here
  obtain ⟨b, inside, rfl⟩ := List.mem_map.mp here
  have all : ∀ b ∈ Hex.lowerDigits, Char.ofNat b.toNat ∈ "0123456789abcdef".toList := by
    decide +kernel
  exact all b (Hex.encode_lower d.bytes b inside)

@[simp] theorem ofHex_toHex (d : Digest) : ofHex d.toHex = .ok d := by
  simp only [ofHex, utf8_toHex, Hex.decode_encode, ofDecoded, ofBytes?_bytes]

theorem toHex_inj {a b : Digest} : a.toHex = b.toHex ↔ a = b := by
  constructor
  · intro same
    have read := ofHex_toHex a
    rw [same, ofHex_toHex] at read
    exact (Except.ok.inj read).symm
  · rintro rfl
    rfl

/-- Only texts of 64 digits are read. -/
theorem digits_of_ofHex (read : ofHex text = .ok d) :
    (Text.utf8 text).length = 64 ∧ ∀ b ∈ Text.utf8 text, IsDigit b := by
  have accepted : ¬ ∃ error, ofHex text = .error error := by
    intro ⟨error, rejected⟩
    rw [read] at rejected
    cases rejected
  rw [rejected_iff] at accepted
  simpa using accepted

/-- Writing again what was read gives the same text in lower case. -/
theorem toHex_of_ofHex (read : ofHex text = .ok d) : d.toHex = Text.lower text := by
  obtain ⟨width, all⟩ := digits_of_ofHex read
  obtain ⟨d', read', written⟩ := ofHex_of_digits width all
  obtain rfl : d = d' := Except.ok.inj (read.symm.trans read')
  have ascii : ∀ b ∈ Text.utf8 text, b < 128 := fun b here => (all b here).ascii
  calc d.toHex = Text.ofAscii ((Text.utf8 text).map lowerByte) := by rw [toHex, written]
    _ = Text.lower (Text.ofAscii (Text.utf8 text)) := (Text.lower_ofAscii _).symm
    _ = Text.lower text := by rw [Text.ofAscii_utf8 ascii]

theorem compare_toHex (a b : Digest) : compare a.toHex b.toHex = compare a b := by
  rw [toHex, toHex, Text.compare_ofAscii, Hex.compare_encode]
  rfl

/-- A digest is written in 64 lower-case digits and read back. The texts that are read are those of
64 digits in either case; each is the text of its digest up to the case of its letters, so two of
them stand for one digest just when they differ in that only. Digests are ordered as their texts,
character by character or byte by byte. -/
theorem hex_exact :
    (∀ d : Digest, d.toHex.length = 64 ∧
      (∀ c ∈ d.toHex.toList, c ∈ "0123456789abcdef".toList) ∧ ofHex d.toHex = .ok d) ∧
    (∀ s, (∃ d, ofHex s = .ok d) ↔ (Text.utf8 s).length = 64 ∧ ∀ b ∈ Text.utf8 s, IsDigit b) ∧
    (∀ s d, ofHex s = .ok d → d.toHex = Text.lower s) ∧
    (∀ s s' d d', ofHex s = .ok d → ofHex s' = .ok d' →
      (d = d' ↔ Text.lower s = Text.lower s')) ∧
    ∀ a b : Digest, compare a b = compare a.toHex b.toHex ∧
      compare a b = compare (Text.utf8 a.toHex) (Text.utf8 b.toHex) := by
  refine ⟨fun d => ⟨length_toHex d, toHex_digits d, ofHex_toHex d⟩, ?_, ?_, ?_, ?_⟩
  · intro s
    constructor
    · intro ⟨d, read⟩
      exact digits_of_ofHex read
    · intro ⟨width, all⟩
      obtain ⟨d, read, -⟩ := ofHex_of_digits width all
      exact ⟨d, read⟩
  · intro s d read
    exact toHex_of_ofHex read
  · intro s s' d d' read read'
    rw [← toHex_of_ofHex read, ← toHex_of_ofHex read', toHex_inj]
  · intro a b
    refine ⟨(compare_toHex a b).symm, ?_⟩
    rw [utf8_toHex, utf8_toHex, Hex.compare_encode]
    rfl

/-- One digest from letters in upper case and in both cases. -/
theorem hex_exact_both_cases :
    ∃ d : Digest,
      ofHex "00112233445566778899AABBCCDDEEFF00112233445566778899AABBCCDDEEFF" = .ok d ∧
      ofHex "00112233445566778899AaBbCcDdEeFf00112233445566778899aAbBcCdDeEfF" = .ok d ∧
      d.toHex =
        Text.lower "00112233445566778899AABBCCDDEEFF00112233445566778899AABBCCDDEEFF" ∧
      Text.lower "00112233445566778899AABBCCDDEEFF00112233445566778899AABBCCDDEEFF" =
        Text.lower "00112233445566778899AaBbCcDdEeFf00112233445566778899aAbBcCdDeEfF" := by
  obtain ⟨-, read_iff, written, same_iff, -⟩ := hex_exact
  have upper := (read_iff
    "00112233445566778899AABBCCDDEEFF00112233445566778899AABBCCDDEEFF").mpr (by decide +kernel)
  obtain ⟨d, read⟩ := upper
  have read' : ofHex "00112233445566778899AaBbCcDdEeFf00112233445566778899aAbBcCdDeEfF" =
      .ok d := by
    rw [← read]
    rfl
  exact ⟨d, read, read', written _ d read, (same_iff _ _ d d read read').mp rfl⟩

end Merkle.Digest
