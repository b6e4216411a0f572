import Merkle.Error
import Merkle.Tree.Root

/-!
# Inclusion proofs: from a leaf and its siblings back to the root

At each level the lowest bit of the index says on which side the sibling stands. A proof as a value
carries the leaf, its index and its siblings; only the root has to be trusted.
-/
namespace Merkle.Tree

/-- The parent of a node and its sibling: the sibling is on the left when the index is odd. -/
def joinSibling (hasher : Hasher) (index : UInt32) (node sibling : Digest) : Digest :=
  if index &&& 1 ≠ 0 then hasher.pair sibling node else hasher.pair node sibling

/-- The node reached when all siblings are joined, lowest level first. -/
def climb (hasher : Hasher) (index : UInt32) (node : Digest) : List Digest → Digest
  | [] => node
  | sibling :: rest => climb hasher (index >>> 1) (joinSibling hasher index node sibling) rest

/-- Whether a leaf at an index, with its siblings, leads to the root. Too many siblings, or an index
that needs more levels than there are siblings, prove nothing. -/
def verify (hasher : Hasher) (root leaf : Digest) (index : UInt32) (siblings : List Digest) :
    Bool :=
  if siblings.length > maxDepth then false
  else if index.toUInt64 > lastIndex siblings.length then false
  else climb hasher index leaf siblings == root

end Merkle.Tree

namespace Merkle

/-- That a leaf is a member of a tree at a position. -/
structure InclusionProof where
  leaf : Digest
  /-- Index of the leaf, from zero. -/
  leafIndex : UInt32
  /-- Sibling digests, lowest level first. -/
  siblings : List Digest
  deriving DecidableEq, Repr

namespace InclusionProof

/-- The proof of the leaf at an index, where `Tree.siblings?` has one. -/
def generate? (hasher : Hasher) (leaves : List Digest) (index : UInt32) : Option InclusionProof :=
  match Tree.siblings? hasher leaves index, leaves[index.toNat]? with
  | some siblings, some leaf => some ⟨leaf, index, siblings⟩
  | _, _ => none

/-- Count of levels that the proof spans. -/
def depth (proof : InclusionProof) : Nat := proof.siblings.length

/-- The greatest leaf index that a proof of this depth can carry; none when it is longer than any
index needs. -/
def maxLeafIndex? (proof : InclusionProof) : Option UInt32 :=
  if proof.depth > Tree.maxDepth then none else Tree.toIndex? (Tree.lastIndex proof.depth)

/-- Whether the proof leads to the root. -/
def verify (proof : InclusionProof) (hasher : Hasher) (root : Digest) : Bool :=
  Tree.verify hasher root proof.leaf proof.leafIndex proof.siblings

/-- As `verify`, with an error that does not tell why verification failed. -/
def verifyAgainst (proof : InclusionProof) (hasher : Hasher) (root : Digest) : Except Error Unit :=
  if proof.verify hasher root then .ok ()
  else .error { kind := .invalidProof, reason := .rootMismatch }

end InclusionProof
end Merkle
