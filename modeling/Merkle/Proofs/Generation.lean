import Merkle.InclusionProof
import Merkle.Proofs.Acceptance

/-!
# Generation: which leaves have a proof, and how long it is

A proof takes one sibling from each round in which the leaves are folded up to a single node
(`Level.FoldsIn`). The rounds are as many as the five steps of the logarithm say before the first of
them, whatever leaf is asked for, so neither bound of verification turns a generated proof away
(`siblings_exact`).
-/
namespace Merkle

namespace Tree

/-- Folding a level until one node is left takes so many rounds. -/
inductive Level.FoldsIn (hasher : Hasher) : Level → Nat → Prop
  | done {level : Level} (single : level.size = 1) : FoldsIn hasher level 0
  | round {level : Level} {rounds : Nat} (many : 1 < level.size)
      (above : FoldsIn hasher (level.fold hasher) rounds) : FoldsIn hasher level (rounds + 1)

/-- Each round halves the level, rounded up, and takes one off its depth. -/
theorem Level.foldsIn_depth (hasher : Hasher) {level : Level} (nonempty : 0 < level.size) :
    level.FoldsIn hasher (depth level.size) := by
  fun_induction collapse hasher level nonempty with
  | case1 level nonempty single =>
    have flat : depth level.size = 0 := by simp [single, depth]
    rw [flat]
    exact .done single
  | case2 level nonempty several ih =>
    have many : 1 < level.size := by omega
    rw [size_fold] at ih
    rw [depth_parents many]
    exact .round many ih

/-- Every leaf of a tree that is not too deep fits as many siblings as the tree has levels. -/
theorem toUInt64_le_lastIndex {index : UInt32} {count : Nat} (inside : index.toNat < count)
    (short : depth count ≤ maxDepth) : index.toUInt64 ≤ lastIndex (depth count) := by
  have below := lt_two_pow_depth inside
  rw [UInt64.le_iff_toNat_le, UInt32.toNat_toUInt64, toNat_lastIndex short]
  omega

end Tree

namespace InclusionProof

variable {hasher : Hasher} {leaves : List Digest} {index : UInt32}

theorem generate?_eq_some_iff {proof : InclusionProof} :
    generate? hasher leaves index = some proof ↔
      leaves[index.toNat]? = some proof.leaf ∧ proof.leafIndex = index ∧
        Tree.siblings? hasher leaves index = some proof.siblings := by
  obtain ⟨leaf, leafIndex, siblings⟩ := proof
  unfold generate?
  cases Tree.siblings? hasher leaves index with
  | none => simp
  | some found =>
    cases leaves[index.toNat]? with
    | none => simp
    | some own =>
      simp only [Option.some.injEq, InclusionProof.mk.injEq]
      constructor
      · rintro ⟨rfl, rfl, rfl⟩
        exact ⟨rfl, rfl, rfl⟩
      · rintro ⟨rfl, rfl, rfl⟩
        exact ⟨rfl, rfl, rfl⟩

/-- The leaf is there whenever its siblings are. -/
theorem generate?_eq_none_iff :
    generate? hasher leaves index = none ↔ Tree.siblings? hasher leaves index = none := by
  constructor
  · intro missing
    cases found : Tree.siblings? hasher leaves index with
    | none => rfl
    | some siblings =>
      have inside := Tree.lt_length_of_siblings? found
      have made : generate? hasher leaves index = some ⟨leaves[index.toNat], index, siblings⟩ :=
        generate?_eq_some_iff.mpr ⟨List.getElem?_eq_getElem inside, rfl, found⟩
      rw [missing] at made
      cases made
  · intro missing
    simp [generate?, missing]

end InclusionProof

namespace Tree

/-- Siblings are missing exactly for the indices that no leaf has. Where they are found, for
whatever leaf, they are as many as the logarithm of the count of leaves, rounded up: the least count
of levels that tells the leaves apart, the rounds of folding, and at most 32. Both bounds of
verification then hold for every leaf. A whole proof is made for the same indices, of the leaf, its
index and these siblings. -/
theorem siblings_exact (hasher : Hasher) {leaves : List Digest} (few : leaves.length ≤ maxLeaves)
    (index : UInt32) :
    (siblings? hasher leaves index = none ↔ leaves.length ≤ index.toNat) ∧
    (∀ siblings, siblings? hasher leaves index = some siblings →
      siblings.length = (ceilLog2 (UInt32.ofNat leaves.length)).toNat ∧
      IsLeast {levels | leaves.length ≤ 2 ^ levels} siblings.length ∧
      Level.FoldsIn hasher leaves.toArray siblings.length ∧
      ¬ siblings.length > maxDepth ∧
      index.toNat < leaves.length ∧
      ∀ i : UInt32, i.toNat < leaves.length →
        i.toNat ≤ 2 ^ siblings.length - 1 ∧ ¬ i.toUInt64 > lastIndex siblings.length) ∧
    (InclusionProof.generate? hasher leaves index = none ↔
      siblings? hasher leaves index = none) ∧
    ∀ proof, InclusionProof.generate? hasher leaves index = some proof ↔
      leaves[index.toNat]? = some proof.leaf ∧ proof.leafIndex = index ∧
        siblings? hasher leaves index = some proof.siblings := by
  refine ⟨siblings?_eq_none_iff few, ?_, InclusionProof.generate?_eq_none_iff,
    fun _ => InclusionProof.generate?_eq_some_iff⟩
  intro siblings found
  have inside := lt_length_of_siblings? found
  have occupied : 0 < leaves.toArray.size := by
    rw [List.size_toArray]
    omega
  have short := depth_le_maxDepth few
  have folds := Level.foldsIn_depth hasher occupied
  rw [List.size_toArray] at folds
  rw [length_of_siblings? found]
  refine ⟨(toNat_ceilLog2_ofNat (by omega) few).symm, isLeast_depth _, folds,
    Nat.not_lt.mpr short, inside, ?_⟩
  intro i within
  have below := lt_two_pow_depth within
  exact ⟨by omega, UInt64.not_lt.mpr (toUInt64_le_lastIndex within short)⟩

/-- One leaf more than a power of two: a third round, for the first leaf as for the last. -/
theorem siblings_exact_five :
    let leaves := [filled 1, filled 2, filled 3, filled 4, filled 5]
    leaves.length ≤ maxLeaves ∧ siblings? .sha256 leaves 5 = none ∧
      ∃ siblings, siblings? .sha256 leaves 0 = some siblings ∧ siblings.length = 3 ∧
        Level.FoldsIn .sha256 leaves.toArray 3 ∧
        ((4 : UInt32).toNat < leaves.length ∧ ¬ (4 : UInt32).toUInt64 > lastIndex 3) ∧
        InclusionProof.generate? .sha256 leaves 0 = some ⟨filled 1, 0, siblings⟩ := by
  intro leaves
  have few : leaves.length ≤ maxLeaves := by decide
  have past := siblings_exact .sha256 few 5
  have first := siblings_exact .sha256 few 0
  obtain ⟨siblings, found⟩ := exists_siblings? .sha256 few
    (show (0 : UInt32).toNat < leaves.length by decide)
  obtain ⟨length_eq, -, folds, -, -, fits⟩ := first.2.1 siblings found
  have three : siblings.length = 3 := by
    rw [length_eq]
    decide
  rw [three] at folds fits
  have last : (4 : UInt32).toNat < leaves.length := by decide
  exact ⟨few, past.1.mpr (by decide), siblings, found, three, folds, ⟨last, (fits 4 last).2⟩,
    (first.2.2.2 ⟨filled 1, 0, siblings⟩).mpr ⟨rfl, rfl, found⟩⟩

end Tree
end Merkle
