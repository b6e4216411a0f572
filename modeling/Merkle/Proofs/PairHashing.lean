import Merkle.Proofs.Binding

/-!
# Pair hashing: from the hash of a pair to the primitive underneath

A hasher may be handed over as itself, by its algorithm or by reference. Whichever way is taken, a
pair is hashed as its two digests joined, and the tree computes the same. So two pairs with one
digest are two strings with one digest under the primitive; for the double SHA-256 the strings are
those that go into its first application or into its second.
-/
namespace Merkle

/-- How bytes are hashed: by an algorithm on offer, or by a hash of the caller's. -/
inductive Scheme where
  | offered (algorithm : Algorithm)
  | own (hash : List UInt8 → Digest)

/-- The ways to hand over the hasher of a scheme. A hasher of the caller's says nothing about
pairs. -/
inductive Spelling : Scheme → Type where
  | itself (algorithm : Algorithm) : Spelling (.offered algorithm)
  | byAlgorithm (algorithm : Algorithm) : Spelling (.offered algorithm)
  | own (hash : List UInt8 → Digest) : Spelling (.own hash)
  /-- Also a reference to a reference. -/
  | reference {scheme : Scheme} (inner : Spelling scheme) : Spelling scheme

/-- Two different strings with one digest. -/
def Collision (primitive : List UInt8 → Digest) (x y : List UInt8) : Prop :=
  x ≠ y ∧ primitive x = primitive y

namespace Scheme

/-- The digest of bytes, in terms of the primitive. -/
def hash : Scheme → List UInt8 → Digest
  | .offered .blake3, bytes => Hash.Blake3.hash bytes
  | .offered .sha256, bytes => Hash.Sha256.hash bytes
  | .offered .doubleSha256, bytes => Hash.Sha256.hash (Hash.Sha256.hash bytes).bytes
  | .own hash, bytes => hash bytes

/-- A collision of the primitive where two strings are hashed. With two applications it may be in
either. -/
def Collides : Scheme → List UInt8 → List UInt8 → Prop
  | .offered .blake3, x, y => Collision Hash.Blake3.hash x y
  | .offered .sha256, x, y => Collision Hash.Sha256.hash x y
  | .offered .doubleSha256, x, y => Collision Hash.Sha256.hash x y ∨
      Collision Hash.Sha256.hash (Hash.Sha256.hash x).bytes (Hash.Sha256.hash y).bytes
  | .own hash, x, y => Collision hash x y

end Scheme

/-- The hasher that is handed over. -/
def Spelling.hasher {scheme : Scheme} : Spelling scheme → Hasher
  | .itself .blake3 => .blake3
  | .itself .sha256 => .sha256
  | .itself .doubleSha256 => .doubleSha256
  | .byAlgorithm algorithm => algorithm.hasher
  | .own hash => { hash }
  | .reference inner => inner.hasher.delegate

variable {scheme : Scheme}

/-! ## Spellings -/

/-- BLAKE3 has a hash of pairs of its own, which gives what the default one gives. -/
theorem Hasher.blake3_eq : Hasher.blake3 = { hash := Hash.Blake3.hash } := by
  have pairs : Hasher.blake3.pair = fun left right => Hash.Blake3.hash (Digest.join left right) :=
    funext₂ Hasher.blake3_pair
  calc Hasher.blake3 = { hash := Hash.Blake3.hash, pair := Hasher.blake3.pair } := rfl
    _ = { hash := Hash.Blake3.hash } := by rw [pairs]

theorem Spelling.hasher_itself (algorithm : Algorithm) :
    (itself algorithm).hasher = { hash := (Scheme.offered algorithm).hash } := by
  cases algorithm with
  | blake3 => exact Hasher.blake3_eq
  | sha256 => rfl
  | doubleSha256 => rfl

/-- Looking at the algorithm in each call finds the hasher of that algorithm. -/
theorem Spelling.hasher_byAlgorithm (algorithm : Algorithm) :
    (byAlgorithm algorithm).hasher = (itself algorithm).hasher := by
  cases algorithm <;> rfl

/-- Every spelling is the hash of its scheme with pairs joined. -/
theorem Spelling.hasher_eq (spelling : Spelling scheme) :
    spelling.hasher = { hash := scheme.hash } := by
  induction spelling with
  | itself algorithm => exact hasher_itself algorithm
  | byAlgorithm algorithm => rw [hasher_byAlgorithm, hasher_itself]
  | own hash => rfl
  | reference inner ih => rw [hasher, Hasher.delegate_eq, ih]

/-! ## Collisions -/

/-- Two different strings have one digest just when the primitive collides on the way there. -/
theorem Scheme.collides_iff (scheme : Scheme) (x y : List UInt8) :
    scheme.Collides x y ↔ x ≠ y ∧ scheme.hash x = scheme.hash y := by
  cases scheme with
  | own hash => rfl
  | offered algorithm =>
    cases algorithm with
    | blake3 => rfl
    | sha256 => rfl
    | doubleSha256 =>
      simp only [Collides, hash, Collision]
      constructor
      · intro collision
        rcases collision with ⟨different, inner⟩ | ⟨different, outer⟩
        · exact ⟨different, by rw [inner]⟩
        · exact ⟨fun same => different (by rw [same]), outer⟩
      · intro ⟨different, outer⟩
        by_cases inner : Hash.Sha256.hash x = Hash.Sha256.hash y
        · exact .inl ⟨different, inner⟩
        · exact .inr ⟨fun same => inner (Digest.ext same), outer⟩

theorem Digest.join_eq_iff {p p' : Digest × Digest} :
    join p.1 p.2 = join p'.1 p'.2 ↔ p = p' := by
  rw [join_inj, Prod.ext_iff]

/-- Different pairs have one digest just when the primitive collides on their joined bytes. -/
theorem Spelling.collides_iff (spelling : Spelling scheme) {p p' : Digest × Digest} :
    scheme.Collides (Digest.join p.1 p.2) (Digest.join p'.1 p'.2) ↔
      p ≠ p' ∧ spelling.hasher.pair p.1 p.2 = spelling.hasher.pair p'.1 p'.2 := by
  rw [scheme.collides_iff, Ne, Digest.join_eq_iff, spelling.hasher_eq]

/-- Where two climbs hash different pairs to one digest, the primitive collides. -/
theorem Spelling.collides_of_collide (spelling : Spelling scheme)
    {pairs pairs' : List (Digest × Digest)} (collide : Tree.Collide spelling.hasher pairs pairs') :
    ∃ (step : Nat) (p p' : Digest × Digest), pairs[step]? = some p ∧ pairs'[step]? = some p' ∧
      scheme.Collides (Digest.join p.1 p.2) (Digest.join p'.1 p'.2) := by
  obtain ⟨step, p, p', here, here', collision⟩ := collide
  exact ⟨step, p, p', here, here', spelling.collides_iff.mpr collision⟩

/-- However a hasher is handed over, a pair is hashed as its digests joined, two different pairs
with one digest are a collision of the primitive on strings computed from them, and the tree is
built and verified in the same way. -/
theorem Spelling.pair_reduces (spelling spelling' : Spelling scheme) :
    (∀ bytes, spelling.hasher.hash bytes = scheme.hash bytes) ∧
    (∀ left right,
      spelling.hasher.pair left right = spelling.hasher.hash (Digest.join left right)) ∧
    (∀ left right left' right',
      (left, right) ≠ (left', right') ∧
          spelling.hasher.pair left right = spelling.hasher.pair left' right' ↔
        scheme.Collides (Digest.join left right) (Digest.join left' right')) ∧
    (∀ leaves, Tree.root spelling.hasher leaves = Tree.root spelling'.hasher leaves) ∧
    (∀ first second, Tree.combinedRoot spelling.hasher first second =
      Tree.combinedRoot spelling'.hasher first second) ∧
    (∀ leaves index,
      Tree.siblings? spelling.hasher leaves index = Tree.siblings? spelling'.hasher leaves index) ∧
    ∀ root leaf index siblings, Tree.verify spelling.hasher root leaf index siblings =
      Tree.verify spelling'.hasher root leaf index siblings := by
  have same : spelling.hasher = spelling'.hasher := by
    rw [spelling.hasher_eq, spelling'.hasher_eq]
  refine ⟨?_, ?_, ?_, ?_, ?_, ?_, ?_⟩
  · intro bytes
    rw [spelling.hasher_eq]
  · intro left right
    rw [spelling.hasher_eq]
  · intro left right left' right'
    exact (@Spelling.collides_iff scheme spelling (left, right) (left', right')).symm
  · intro leaves
    rw [same]
  · intro first second
    rw [same]
  · intro leaves index
    rw [same]
  · intro root leaf index siblings
    rw [same]

end Merkle
