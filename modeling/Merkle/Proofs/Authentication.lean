import Merkle.InclusionProof
import Merkle.Proofs.Verify

/-!
# Authentication: the one root of a proof, or none

A proof value is checked against roots that come from elsewhere. The greatest index that its depth
can carry decides whether there is a root for it at all, and the climb along the bits of its index
says which one (`authenticates`). Nothing is assumed about where the proof comes from.
-/
namespace Merkle

namespace Tree

/-- The node that a leaf and its siblings lead to: the sibling of a level stands on the left exactly
where the index has a one among its binary digits. -/
def ascent (hasher : Hasher) (index : Nat) (leaf : Digest) (siblings : List Digest) : Digest :=
  siblings.zipIdx.foldl
    (fun node (sibling, level) =>
      if index.testBit level then hasher.pair sibling node else hasher.pair node sibling)
    leaf

/-- The loop drops the digits that it has used; it turns by the digit of the level nevertheless. -/
theorem joinSibling_testBit {index level : Nat} {own : UInt32}
    (shifted : own.toNat = index / 2 ^ level) (hasher : Hasher) (node sibling : Digest) :
    joinSibling hasher own node sibling =
      if index.testBit level then hasher.pair sibling node else hasher.pair node sibling := by
  rw [Nat.testBit_eq_decide_div_mod_eq, ← shifted]
  rcases Nat.mod_two_eq_zero_or_one own.toNat with even | odd
  · simp [joinSibling_even even, even]
  · simp [joinSibling_odd odd, odd]

theorem climb_eq_ascent (hasher : Hasher) (index : UInt32) (leaf : Digest)
    (siblings : List Digest) :
    climb hasher index leaf siblings = ascent hasher index.toNat leaf siblings := by
  -- Some levels below are behind us: the loop holds what is left of the index.
  suffices above : ∀ (level : Nat) (own : UInt32) (node : Digest),
      own.toNat = index.toNat / 2 ^ level →
        climb hasher own node siblings = (siblings.zipIdx level).foldl
          (fun node (sibling, level) =>
            if index.toNat.testBit level then hasher.pair sibling node
            else hasher.pair node sibling) node by
    exact above 0 index leaf (by simp)
  induction siblings with
  | nil => simp [climb]
  | cons sibling rest ih =>
    intro level own node shifted
    have half : (own >>> 1).toNat = index.toNat / 2 ^ (level + 1) := by
      rw [toNat_shiftRight_one, shifted, Nat.pow_succ, Nat.div_div_eq_div_mul]
    rw [climb, ih (level + 1) _ _ half, List.zipIdx_cons, List.foldl_cons,
      joinSibling_testBit shifted]

/-- Narrowing loses nothing up to the depth of 32. -/
theorem toIndex?_lastIndex {depth : Nat} (short : depth ≤ maxDepth) :
    ∃ greatest, toIndex? (lastIndex depth) = some greatest ∧ greatest.toNat = 2 ^ depth - 1 := by
  have last := toNat_lastIndex short
  have bound : 2 ^ depth ≤ 2 ^ 32 := Nat.pow_le_pow_right (by decide) short
  have narrow : lastIndex depth ≤ 0xffffffff := by
    rw [UInt64.le_iff_toNat_le, last]
    exact Nat.sub_le_sub_right bound 1
  refine ⟨(lastIndex depth).toUInt32, by rw [toIndex?, if_pos narrow], ?_⟩
  rw [UInt64.toNat_toUInt32, last]
  omega

end Tree

namespace InclusionProof

/-- The bound of the proof itself, computed apart from the one of verification. -/
theorem maxLeafIndex?_eq_some_iff {proof : InclusionProof} {greatest : UInt32} :
    proof.maxLeafIndex? = some greatest ↔
      proof.depth ≤ Tree.maxDepth ∧ greatest.toNat = 2 ^ proof.depth - 1 := by
  unfold maxLeafIndex?
  by_cases short : proof.depth ≤ Tree.maxDepth
  · obtain ⟨last, narrowed, last_eq⟩ := Tree.toIndex?_lastIndex short
    rw [if_neg (Nat.not_lt.mpr short), narrowed, Option.some.injEq, ← UInt32.toNat_inj, last_eq]
    simp [short, eq_comm]
  · simp [short, Nat.lt_of_not_le short]

theorem maxLeafIndex?_eq_none_iff {proof : InclusionProof} :
    proof.maxLeafIndex? = none ↔ Tree.maxDepth < proof.depth := by
  by_cases short : proof.depth ≤ Tree.maxDepth
  · obtain ⟨last, narrowed, -⟩ := Tree.toIndex?_lastIndex short
    simp [maxLeafIndex?, Nat.not_lt.mpr short, narrowed]
  · simp [maxLeafIndex?, Nat.lt_of_not_le short]

/-- Both bounds allow the same indices. -/
theorem verify_iff_ascent {proof : InclusionProof} {hasher : Hasher} {root : Digest} :
    proof.verify hasher root = true ↔
      (∃ greatest, proof.maxLeafIndex? = some greatest ∧ proof.leafIndex ≤ greatest) ∧
        root = Tree.ascent hasher proof.leafIndex.toNat proof.leaf proof.siblings := by
  rw [verify, Tree.verify_iff, Tree.climb_eq_ascent, ← and_assoc, eq_comm (b := root)]
  apply and_congr_left'
  have positive := Nat.two_pow_pos proof.depth
  constructor
  · rintro ⟨short, inside⟩
    obtain ⟨last, -, last_eq⟩ := Tree.toIndex?_lastIndex short
    refine ⟨last, maxLeafIndex?_eq_some_iff.mpr ⟨short, last_eq⟩, ?_⟩
    rw [UInt32.le_iff_toNat_le, last_eq]
    exact Nat.le_sub_one_of_lt inside
  · rintro ⟨last, bound, carried⟩
    obtain ⟨short, last_eq⟩ := maxLeafIndex?_eq_some_iff.mp bound
    rw [UInt32.le_iff_toNat_le, last_eq] at carried
    exact ⟨short, Nat.lt_of_le_sub_one positive carried⟩

/-- A proof is accepted for exactly one root, where the climb ends, if its index is at most the
greatest one that its depth can carry, and otherwise for none. That greatest index is missing
exactly beyond 32 levels; up to there it is one less than a power of two and fits 32 bits. The
checked form fails exactly when the proof is not accepted, always with the same error. -/
theorem authenticates (proof : InclusionProof) (hasher : Hasher) :
    (∀ root, proof.verify hasher root = true ↔
      (∃ greatest, proof.maxLeafIndex? = some greatest ∧ proof.leafIndex ≤ greatest) ∧
        root = Tree.ascent hasher proof.leafIndex.toNat proof.leaf proof.siblings) ∧
    (proof.maxLeafIndex? = none ↔ 32 < proof.depth) ∧
    (∀ greatest, proof.maxLeafIndex? = some greatest ↔
      proof.depth ≤ 32 ∧ greatest.toNat = 2 ^ proof.depth - 1) ∧
    ∀ root,
      (proof.verifyAgainst hasher root = .ok () ↔ proof.verify hasher root = true) ∧
      (proof.verifyAgainst hasher root =
          .error { kind := .invalidProof, reason := .rootMismatch } ↔
        proof.verify hasher root = false) := by
  refine ⟨fun _ => verify_iff_ascent, maxLeafIndex?_eq_none_iff,
    fun _ => maxLeafIndex?_eq_some_iff, ?_⟩
  intro root
  cases verdict : proof.verify hasher root with
  | true => simp [verifyAgainst, verdict]
  | false => simp [verifyAgainst, verdict]

end InclusionProof
end Merkle
