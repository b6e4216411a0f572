import Mathlib.Data.Nat.Bitwise
import Merkle.InclusionProof

/-!
# Verdicts: what an accepted verification has gone through

A verification is accepted when its siblings are few enough, its index fits them and the climb ends
at the root (`verify_iff`). Each step of the climb hashes one ordered pair.
-/
namespace Merkle.Tree

theorem toNat_one_shiftLeft {depth : Nat} (short : depth ≤ maxDepth) :
    ((1 : UInt64) <<< UInt64.ofNat depth).toNat = 2 ^ depth := by
  have small : depth < 64 := Nat.lt_of_le_of_lt short (by decide)
  have fits : 2 ^ depth < 2 ^ 64 := Nat.pow_lt_pow_right (by decide) small
  have amount : (UInt64.ofNat depth).toNat % 64 = depth := by
    rw [UInt64.toNat_ofNat']
    omega
  rw [UInt64.toNat_shiftLeft, amount, UInt64.toNat_one, Nat.one_shiftLeft, Nat.mod_eq_of_lt fits]

/-- Indices that `depth` siblings can carry end just below the power of two. -/
theorem toNat_lastIndex {depth : Nat} (short : depth ≤ maxDepth) :
    (lastIndex depth).toNat = 2 ^ depth - 1 := by
  have positive : (1 : UInt64) ≤ (1 : UInt64) <<< UInt64.ofNat depth := by
    rw [UInt64.le_iff_toNat_le, toNat_one_shiftLeft short]
    exact Nat.one_le_two_pow
  rw [lastIndex, UInt64.toNat_sub_of_le _ _ positive, toNat_one_shiftLeft short, UInt64.toNat_one]

/-- Too many siblings, an index that is too large for them, and a climb that ends elsewhere are the
three ways to be refused. -/
theorem verify_iff {hasher : Hasher} {root leaf : Digest} {index : UInt32}
    {siblings : List Digest} :
    verify hasher root leaf index siblings = true ↔
      siblings.length ≤ maxDepth ∧ index.toNat < 2 ^ siblings.length ∧
        climb hasher index leaf siblings = root := by
  unfold verify
  by_cases short : siblings.length ≤ maxDepth
  · have carried : index.toUInt64 > lastIndex siblings.length ↔
        ¬ index.toNat < 2 ^ siblings.length := by
      rw [gt_iff_lt, UInt64.lt_iff_toNat_lt, toNat_lastIndex short, UInt32.toNat_toUInt64]
      have positive := Nat.two_pow_pos siblings.length
      omega
    rw [if_neg (Nat.not_lt.mpr short)]
    by_cases inside : index.toNat < 2 ^ siblings.length
    · rw [if_neg (fun beyond => carried.mp beyond inside)]
      simp only [beq_iff_eq, short, inside, true_and]
    · rw [if_pos (carried.mpr inside)]
      simp only [Bool.false_eq_true, inside, false_and, and_false]
  · rw [if_pos (Nat.lt_of_not_le short)]
    simp only [Bool.false_eq_true, short, false_and]

theorem odd_iff (index : UInt32) : index &&& 1 ≠ 0 ↔ index.toNat % 2 = 1 := by
  rw [ne_eq, ← UInt32.toNat_inj, UInt32.toNat_and]
  change ¬ index.toNat &&& 1 = 0 ↔ _
  rw [Nat.and_one_is_mod]
  omega

theorem joinSibling_odd {index : UInt32} (odd : index.toNat % 2 = 1) (hasher : Hasher)
    (node sibling : Digest) : joinSibling hasher index node sibling = hasher.pair sibling node := by
  rw [joinSibling, if_pos ((odd_iff index).mpr odd)]

theorem joinSibling_even {index : UInt32} (even : index.toNat % 2 = 0) (hasher : Hasher)
    (node sibling : Digest) : joinSibling hasher index node sibling = hasher.pair node sibling := by
  have notOdd : ¬ index.toNat % 2 = 1 := by omega
  rw [joinSibling, if_neg (fun odd => notOdd ((odd_iff index).mp odd))]

end Merkle.Tree
