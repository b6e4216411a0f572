/-!
# Digests: values of exactly 32 bytes

The width is part of the type, so no operation has to check it again. Digests are ordered by their
bytes, the first difference deciding.
-/
namespace Merkle

/-- A 32-byte hash value. -/
structure Digest where
  bytes : List UInt8
  length_bytes : bytes.length = 32
  deriving DecidableEq, Repr

namespace Digest

/-- Width of every digest in bytes. -/
def size : Nat := 32

@[ext] theorem ext {a b : Digest} (h : a.bytes = b.bytes) : a = b := by
  cases a
  cases b
  cases h
  rfl

/-- Bytes as a digest; any other count than 32 is none. -/
def ofBytes? (bytes : List UInt8) : Option Digest :=
  if h : bytes.length = 32 then some ⟨bytes, h⟩ else none

/-- The zero digest: the root of an empty tree. -/
def zero : Digest := ⟨List.replicate 32 0, List.length_replicate⟩

instance : Inhabited Digest := ⟨zero⟩

/-- Whether all bytes are zero. -/
def isZero (d : Digest) : Bool := d == zero

/-- The 64 bytes of two digests, left before right. -/
def join (left right : Digest) : List UInt8 := left.bytes ++ right.bytes

/-- Bytes are compared from the first on; there is no shorter digest to come first. -/
instance : Ord Digest := ⟨fun a b => compare a.bytes b.bytes⟩

/-- Digests in ascending order, repeats kept. -/
def sort (digests : List Digest) : List Digest :=
  digests.mergeSort fun a b => (compare a b).isLE

@[simp] theorem ofBytes?_bytes (d : Digest) : ofBytes? d.bytes = some d := by
  simp [ofBytes?, d.length_bytes]

theorem ofBytes?_eq_some_iff {bytes : List UInt8} {d : Digest} :
    ofBytes? bytes = some d ↔ bytes = d.bytes := by
  constructor
  · intro h
    unfold ofBytes? at h
    split at h
    · cases h
      rfl
    · cases h
  · rintro rfl
    exact ofBytes?_bytes d

@[simp] theorem length_join (left right : Digest) : (join left right).length = 64 := by
  simp [join, left.length_bytes, right.length_bytes]

/-- The ordered pair can be read back from the joined bytes. -/
theorem join_inj {a b c d : Digest} : join a b = join c d ↔ a = c ∧ b = d := by
  constructor
  · intro h
    have h' := List.append_inj h (by rw [a.length_bytes, c.length_bytes])
    exact ⟨ext h'.1, ext h'.2⟩
  · rintro ⟨rfl, rfl⟩
    rfl

end Digest
end Merkle
