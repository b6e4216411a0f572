import Merkle.Digest

/-!
# Byte order: fixed-width numbers as bytes, and the words of the hash functions

A number is written in a chosen count of bytes, least significant first (`littleEndian`) or most
significant first (`bigEndian`). Bytes are determined by their number and their count
(`littleEndian_ofLittleEndian`). Hash functions read blocks of 64 bytes as sixteen words of 32 bits,
add modulo `2 ^ 32`, and write eight words as one digest.
-/
namespace Merkle.ByteOrder

/-- The low `width` bytes of a number, least significant first. -/
def littleEndian : Nat → Nat → List UInt8
  | 0, _ => []
  | width + 1, n => UInt8.ofNat n :: littleEndian width (n / 256)

/-- The number that bytes stand for when the least significant comes first. -/
def ofLittleEndian : List UInt8 → Nat
  | [] => 0
  | b :: rest => b.toNat + 256 * ofLittleEndian rest

/-- The low `width` bytes of a number, most significant first. -/
def bigEndian (width n : Nat) : List UInt8 := (littleEndian width n).reverse

/-- The number that bytes stand for when the most significant comes first. -/
def ofBigEndian (bytes : List UInt8) : Nat := bytes.foldl (fun n b => 256 * n + b.toNat) 0

@[simp] theorem length_littleEndian (width n : Nat) : (littleEndian width n).length = width := by
  induction width generalizing n with
  | zero => rfl
  | succ width ih => simp [littleEndian, ih]

@[simp] theorem length_bigEndian (width n : Nat) : (bigEndian width n).length = width := by
  simp [bigEndian]

theorem littleEndian_ofLittleEndian (bytes : List UInt8) :
    littleEndian bytes.length (ofLittleEndian bytes) = bytes := by
  induction bytes with
  | nil => rfl
  | cons b rest ih =>
    have hb := b.toNat_lt
    have high : (b.toNat + 256 * ofLittleEndian rest) / 256 = ofLittleEndian rest := by omega
    have low : UInt8.ofNat (b.toNat + 256 * ofLittleEndian rest) = b := by
      apply UInt8.toNat_inj.mp
      simp only [UInt8.toNat_ofNat']
      omega
    simp only [List.length_cons, ofLittleEndian, littleEndian, high, low, ih]

end Merkle.ByteOrder

namespace Merkle.Hash

/-- The eight words that are carried from block to block. -/
abbrev Chaining := Vector UInt32 8

/-- The sixteen words of a block. -/
abbrev Block := Vector UInt32 16

/-- The chaining value that both functions start from: the first 32 fractional bits of the square
roots of the first eight primes. -/
def initial : Chaining :=
  #v[0x6a09e667, 0xbb67ae85, 0x3c6ef372, 0xa54ff53a, 0x510e527f, 0x9b05688c, 0x1f83d9ab, 0x5be0cd19]

/-- Rotation by fewer than 32 places. -/
def rotateRight (x places : UInt32) : UInt32 := (x >>> places) ||| (x <<< (32 - places))

/-- Four bytes a word, most significant first. -/
def bigEndianBlock (bytes : List UInt8) : Block :=
  .ofFn fun i => UInt32.ofNat (ByteOrder.ofBigEndian ((bytes.drop (4 * i.val)).take 4))

/-- Four bytes a word, least significant first; missing bytes count as zero. -/
def littleEndianBlock (bytes : List UInt8) : Block :=
  .ofFn fun i => UInt32.ofNat (ByteOrder.ofLittleEndian ((bytes.drop (4 * i.val)).take 4))

theorem length_flatMap_four (write : Nat → List UInt8) (h : ∀ n, (write n).length = 4)
    (words : Chaining) : (words.toList.flatMap fun w => write w.toNat).length = 32 := by
  have all : (words.toList.map fun w => (write w.toNat).length) = List.replicate 8 4 := by
    apply List.eq_replicate_iff.mpr
    refine ⟨by simp, ?_⟩
    intro n hn
    obtain ⟨w, _, rfl⟩ := List.mem_map.mp hn
    exact h _
  rw [List.length_flatMap, all]
  rfl

/-- Eight words as a digest, the most significant byte of each word first. -/
def bigEndianDigest (words : Chaining) : Digest :=
  ⟨words.toList.flatMap fun w => ByteOrder.bigEndian 4 w.toNat,
    length_flatMap_four _ (ByteOrder.length_bigEndian 4) words⟩

/-- Eight words as a digest, the least significant byte of each word first. -/
def littleEndianDigest (words : Chaining) : Digest :=
  ⟨words.toList.flatMap fun w => ByteOrder.littleEndian 4 w.toNat,
    length_flatMap_four _ (ByteOrder.length_littleEndian 4) words⟩

end Merkle.Hash
