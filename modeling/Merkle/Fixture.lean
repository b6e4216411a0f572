import Merkle.Hasher

/-!
# Fixtures: leaf sets that are the same on every run
-/
namespace Merkle.Fixture

/-- Sizes of trees to measure: full ones, and each with one leaf more. -/
def treeSizes : List UInt32 := [16, 17, 256, 257, 4096, 4097]

/-- The leaf for a position: the digest of the position in four bytes, least significant first. -/
def leaf (algorithm : Algorithm) (position : UInt32) : Digest :=
  algorithm.hasher.hash (ByteOrder.littleEndian 4 position.toNat)

/-- The first `count` leaves. -/
def leaves (algorithm : Algorithm) (count : UInt32) : List Digest :=
  (List.range count.toNat).map fun position => leaf algorithm (UInt32.ofNat position)

end Merkle.Fixture
