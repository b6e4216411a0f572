import Merkle.Hash.Blake3
import Merkle.Hash.Sha256

/-!
# Hashers: hash primitives, and the algorithms that name them

Trees use a hasher only through `pair`. The byte order of a pair, left first, is part of the proof
format.
-/
namespace Merkle

/-! ## Hashers -/

/-- A hash primitive with 32 bytes of output. A hasher that says nothing about pairs hashes the two
digests joined. -/
structure Hasher where
  /-- The digest of any bytes. -/
  hash : List UInt8 → Digest
  /-- The digest of an ordered pair of nodes. -/
  pair : Digest → Digest → Digest := fun left right => hash (Digest.join left right)

namespace Hasher

/-- BLAKE3; a pair is taken in as two parts. -/
def blake3 : Hasher where
  hash := Hash.Blake3.hash
  pair left right := ((Hash.Blake3.Stream.start.absorb left.bytes).absorb right.bytes).finish

/-- A single SHA-256. -/
def sha256 : Hasher where
  hash := Hash.Sha256.hash

/-- SHA-256 of the SHA-256 digest. -/
def doubleSha256 : Hasher where
  hash data := Hash.Sha256.hash (Hash.Sha256.hash data).bytes

/-- A hasher that hands every call on to another. -/
def delegate (inner : Hasher) : Hasher where
  hash data := inner.hash data
  pair left right := inner.pair left right

@[simp] theorem delegate_eq (inner : Hasher) : inner.delegate = inner := rfl

/-- Taking a pair in as two parts gives the digest of the joined bytes. -/
theorem blake3_pair (left right : Digest) :
    blake3.pair left right = blake3.hash (Digest.join left right) := by
  simp only [blake3, Hash.Blake3.hash, Hash.Blake3.Stream.absorb_append, Digest.join]

end Hasher

/-! ## Algorithms -/

/-- The hash primitives on offer; BLAKE3 is the default. -/
inductive Algorithm where
  | blake3 | sha256 | doubleSha256
  deriving DecidableEq, Repr

namespace Algorithm

instance : Inhabited Algorithm := ⟨.blake3⟩

/-- All algorithms; the position of each is its number in the binary form. -/
def all : List Algorithm := [.blake3, .sha256, .doubleSha256]

/-- The name in configurations and messages. -/
def name : Algorithm → String
  | .blake3 => "blake3"
  | .sha256 => "sha256"
  | .doubleSha256 => "double_sha256"

/-- The algorithm of a name. -/
def ofName? (name : String) : Option Algorithm := all.find? (·.name = name)

/-- The hasher that looks at the algorithm in each call. -/
def hasher (algorithm : Algorithm) : Hasher where
  hash data :=
    match algorithm with
    | .blake3 => Hasher.blake3.hash data
    | .sha256 => Hasher.sha256.hash data
    | .doubleSha256 => Hasher.doubleSha256.hash data
  pair left right :=
    match algorithm with
    | .blake3 => Hasher.blake3.pair left right
    | .sha256 => Hasher.sha256.pair left right
    | .doubleSha256 => Hasher.doubleSha256.pair left right

theorem mem_all (algorithm : Algorithm) : algorithm ∈ all := by
  cases algorithm <;> decide

@[simp] theorem ofName?_name (algorithm : Algorithm) : ofName? algorithm.name = some algorithm := by
  cases algorithm <;> decide

theorem name_inj {a b : Algorithm} : a.name = b.name ↔ a = b := by
  constructor
  · intro h
    have same : some a = some b := by rw [← ofName?_name a, ← ofName?_name b, h]
    exact Option.some.inj same
  · rintro rfl
    rfl

end Algorithm

end Merkle
