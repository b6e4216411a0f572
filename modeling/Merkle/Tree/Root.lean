import Merkle.Tree.Level

/-!
# Roots and siblings: what is read off the levels on the way up

Levels are folded until one node is left. The empty tree has the zero digest as its root, and a
single leaf is its own root. For a proof, each node's neighbour is noted on the way from a leaf to
the root, lowest level first; on an odd level the last node's neighbour is its own copy.
-/
namespace Merkle.Tree

/-! ## Roots -/

/-- The last node left when a level is folded again and again. -/
def collapse (hasher : Hasher) (level : Level) (nonempty : 0 < level.size) : Digest :=
  if single : level.size = 1 then level[0]
  else collapse hasher (level.fold hasher) (by rw [Level.size_fold]; omega)
termination_by level.size
decreasing_by
  rw [Level.size_fold]
  omega

/-- The root of the tree over some leaves. -/
def root (hasher : Hasher) : List Digest → Digest
  | [] => .zero
  | [leaf] => leaf
  | first :: second :: rest => collapse hasher (first :: second :: rest).toArray (by simp)

/-- One commitment to two trees: the root of the tree whose two leaves are their roots. -/
def combinedRoot (hasher : Hasher) (first second : List Digest) : Digest :=
  hasher.pair (root hasher first) (root hasher second)

/-! ## Siblings -/

/-- The neighbour of an index differs in the lowest bit. -/
theorem toNat_xor_one (index : UInt32) :
    (index ^^^ 1).toNat = 2 * (index.toNat / 2) + (1 - index.toNat % 2) := by
  have half : (index.toNat ^^^ 1) / 2 = index.toNat / 2 := by
    rw [Nat.xor_div_two]
    simp
  have low := @Nat.xor_mod_two_eq_one index.toNat 1
  rw [UInt32.toNat_xor]
  change index.toNat ^^^ 1 = _
  omega

theorem toNat_shiftRight_one (index : UInt32) : (index >>> 1).toNat = index.toNat / 2 := by
  rw [UInt32.toNat_shiftRight]
  exact Nat.shiftRight_eq_div_pow index.toNat 1

/-- The neighbour of a node stands in the padded level. -/
theorem toNat_xor_one_lt {index : UInt32} {level : Level} (inside : index.toNat < level.size) :
    (index ^^^ 1).toNat < level.pad.size := by
  rw [toNat_xor_one, Level.size_pad]
  omega

/-- The parent of a node stands in the level above. -/
theorem toNat_shiftRight_one_lt {index : UInt32} {level : Level} (hasher : Hasher)
    (inside : index.toNat < level.size) : (index >>> 1).toNat < (level.pad.fold hasher).size := by
  rw [toNat_shiftRight_one, Level.fold_pad, Level.size_fold]
  omega

/-- The siblings met from a node of a level up to the root. -/
def climbSiblings (hasher : Hasher) (level : Level) (index : UInt32)
    (inside : index.toNat < level.size) : List Digest :=
  if single : level.size = 1 then []
  else
    have beside := toNat_xor_one_lt inside
    have above := toNat_shiftRight_one_lt hasher inside
    let padded := level.pad
    padded[(index ^^^ 1).toNat] :: climbSiblings hasher (padded.fold hasher) (index >>> 1) above
termination_by level.size
decreasing_by
  rw [Level.fold_pad, Level.size_fold]
  omega

/-- The siblings that prove the leaf at an index. There are none when no leaf has that index, or
when there are more leaves than `maxLeaves`. -/
def siblings? (hasher : Hasher) (leaves : List Digest) (index : UInt32) : Option (List Digest) :=
  if h : leaves.length ≤ maxLeaves ∧ index.toNat < leaves.length then
    some (climbSiblings hasher leaves.toArray index (by simpa using h.2))
  else none

end Merkle.Tree
