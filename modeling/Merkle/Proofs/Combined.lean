import Merkle.Proofs.Acceptance
import Merkle.Proofs.Blocks
import Merkle.Proofs.Composition

/-!
# Combined roots: proofs of two trees against their one commitment

The root of the other tree is one sibling more, on top of a proof. Leaves of the first tree keep
their index; those of the second get one bit more, above the bits that their own tree needs
(`verify_combinedRoot`). A tree of depth 32 leaves no room for that sibling. Where the first tree is
full and the second as deep, the combined root is the root of all leaves together.
-/
namespace Merkle.Tree

variable {hasher : Hasher} {leaves siblings : List Digest} {leaf : Digest} {index own : UInt32}

/-- A proof with one sibling more, at an index with one bit more: it proves the digest in which that
bit puts the root to the left or to the right of the sibling. -/
theorem verify_extended (found : siblings? hasher leaves own = some siblings)
    (leaf_at : leaves[own.toNat]? = some leaf) (shallow : depth leaves.length < maxDepth)
    (low : index.toNat % 2 ^ depth leaves.length = own.toNat)
    (fits : index.toNat < 2 ^ depth leaves.length * 2) (other : Digest) :
    verify hasher
      (joinSibling hasher (highBits index (depth leaves.length)) (root hasher leaves) other)
      leaf index (siblings ++ [other]) = true := by
  have levels := length_of_siblings? found
  have reached : climb hasher index leaf siblings = root hasher leaves := by
    rw [← climb_of_siblings? found leaf_at]
    apply climb_congr
    rw [levels, ← low, Nat.mod_mod]
  have top : index.toNat / 2 ^ depth leaves.length < 2 := Nat.div_lt_of_lt_mul fits
  rw [verify_append_iff (by rw [levels]; exact shallow), reached, levels, verify_iff,
    toNat_highBits]
  exact ⟨by rw [List.length_singleton]; decide, top, rfl⟩

/-- A leaf of the first tree. -/
theorem verify_combinedRoot_first (found : siblings? hasher leaves index = some siblings)
    (leaf_at : leaves[index.toNat]? = some leaf) (inside : index.toNat < leaves.length)
    (shallow : depth leaves.length < maxDepth) (second : List Digest) :
    verify hasher (combinedRoot hasher leaves second) leaf index
      (siblings ++ [root hasher second]) = true := by
  have small := lt_two_pow_depth inside
  have bit : (highBits index (depth leaves.length)).toNat = 0 := by
    rw [toNat_highBits, Nat.div_eq_of_lt small]
  have extended := verify_extended found leaf_at shallow (Nat.mod_eq_of_lt small) (by omega)
    (root hasher second)
  rwa [joinSibling_even (by rw [bit])] at extended

/-- A leaf of the second tree: its index gets the bit above. -/
theorem verify_combinedRoot_second (found : siblings? hasher leaves own = some siblings)
    (leaf_at : leaves[own.toNat]? = some leaf) (inside : own.toNat < leaves.length)
    (shallow : depth leaves.length < maxDepth) (first : List Digest)
    (moved : index.toNat = own.toNat + 2 ^ depth leaves.length) :
    verify hasher (combinedRoot hasher first leaves) leaf index
      (siblings ++ [root hasher first]) = true := by
  have small := lt_two_pow_depth inside
  have bit : (highBits index (depth leaves.length)).toNat = 1 := by
    rw [toNat_highBits, moved, Nat.add_div_right _ (Nat.two_pow_pos _), Nat.div_eq_of_lt small]
  have low : index.toNat % 2 ^ depth leaves.length = own.toNat := by
    rw [moved, Nat.add_mod_right, Nat.mod_eq_of_lt small]
  have extended := verify_extended found leaf_at shallow low (by omega) (root hasher first)
  rwa [joinSibling_odd (by rw [bit])] at extended

/-- The bit above still fits an index. -/
theorem add_two_pow_depth_lt {number : Nat} (inside : number < leaves.length)
    (shallow : depth leaves.length < maxDepth) :
    number + 2 ^ depth leaves.length < UInt32.size := by
  have small := lt_two_pow_depth inside
  have half : 2 ^ depth leaves.length ≤ 2 ^ 31 :=
    Nat.pow_le_pow_right (by decide) (Nat.le_of_lt_succ shallow)
  change _ < 2 ^ 32
  omega

/-- A full first tree and a second one of the same depth are the two halves of one tree. -/
theorem combinedRoot_eq_root_append {first second : List Digest} {k : Nat}
    (full : first.length = 2 ^ k) (nonempty : second ≠ []) (same : depth second.length = k) :
    combinedRoot hasher first second = root hasher (first ++ second) := by
  have occupied := List.length_pos_iff.mpr nonempty
  have fits : second.length ≤ 2 ^ k := depth_le_iff.mp (Nat.le_of_eq same)
  have low : 2 ^ k < (first ++ second).length := by
    rw [List.length_append]
    omega
  have high : (first ++ second).length ≤ 2 ^ (k + 1) := by
    rw [List.length_append, Nat.pow_succ]
    omega
  rw [root_eq_pair low high, ← full, List.take_left, List.drop_left, blockRoot, same, Nat.sub_self,
    selfPair_zero, combinedRoot]

/-- Every proof of either tree, with the root of the other tree behind it, is accepted against the
combined root, at the same index for the first tree and at the index plus `2 ^ e` for the second,
where `e` is its depth; either tree may be empty. At depth 32 such proofs are too long, and rejected.
The combined root is the root of all leaves together when the first tree is full and the second needs
the same depth. -/
theorem verify_combinedRoot (hasher : Hasher) (first second : List Digest) :
    (first.length ≤ maxLeaves → (ceilLog2 (UInt32.ofNat first.length)).toNat ≤ 31 →
      ∀ (index : UInt32) (inside : index.toNat < first.length),
        ∃ siblings, siblings? hasher first index = some siblings ∧
          verify hasher (combinedRoot hasher first second) first[index.toNat] index
            (siblings ++ [root hasher second]) = true) ∧
    (second.length ≤ maxLeaves →
      ∀ e, e = (ceilLog2 (UInt32.ofNat second.length)).toNat → e ≤ 31 →
      ∀ (index : UInt32) (inside : index.toNat < second.length),
        index.toNat + 2 ^ e < UInt32.size ∧
        ∃ siblings, siblings? hasher second index = some siblings ∧
          verify hasher (combinedRoot hasher first second) second[index.toNat]
            (UInt32.ofNat (index.toNat + 2 ^ e)) (siblings ++ [root hasher first]) = true) ∧
    (∀ leaves : List Digest, leaves.length ≤ maxLeaves →
      (ceilLog2 (UInt32.ofNat leaves.length)).toNat = 32 →
      ∀ index : UInt32, index.toNat < leaves.length →
        ∃ siblings, siblings? hasher leaves index = some siblings ∧
          ∀ other, (siblings ++ [other]).length = 33 ∧
            ∀ root leaf place, verify hasher root leaf place (siblings ++ [other]) = false) ∧
    (∀ k, 1 ≤ k → first.length = 2 ^ k → 2 ^ (k - 1) < second.length → second.length ≤ 2 ^ k →
      combinedRoot hasher first second = root hasher (first ++ second)) ∧
    (first.length = 1 → second.length = 1 →
      combinedRoot hasher first second = root hasher (first ++ second)) := by
  refine ⟨?_, ?_, ?_, ?_, ?_⟩
  · intro few short index inside
    rw [toNat_ceilLog2_ofNat (by omega) few] at short
    obtain ⟨siblings, found⟩ := exists_siblings? hasher few inside
    exact ⟨siblings, found, verify_combinedRoot_first found (List.getElem?_eq_getElem inside) inside
      (Nat.lt_succ_of_le short) second⟩
  · rintro few e rfl short index inside
    rw [toNat_ceilLog2_ofNat (by omega) few] at short ⊢
    have shallow : depth second.length < maxDepth := Nat.lt_succ_of_le short
    have room := add_two_pow_depth_lt inside shallow
    obtain ⟨siblings, found⟩ := exists_siblings? hasher few inside
    exact ⟨room, siblings, found, verify_combinedRoot_second found
      (List.getElem?_eq_getElem inside) inside shallow first (UInt32.toNat_ofNat_of_lt' room)⟩
  · intro leaves few deep index inside
    rw [toNat_ceilLog2_ofNat (by omega) few] at deep
    obtain ⟨siblings, found⟩ := exists_siblings? hasher few inside
    refine ⟨siblings, found, ?_⟩
    intro other
    have length_eq : (siblings ++ [other]).length = 33 := by
      rw [List.length_append, length_of_siblings? found, deep, List.length_singleton]
    exact ⟨length_eq, fun _ _ _ => verify_eq_false_of_long (by rw [length_eq]; decide)⟩
  · intro k several full low high
    have above : k - 1 < depth second.length := lt_depth_iff.mpr low
    have below : depth second.length ≤ k := depth_le_iff.mpr high
    have nonempty : second ≠ [] := List.length_pos_iff.mp (Nat.zero_lt_of_lt low)
    exact combinedRoot_eq_root_append full nonempty (by omega)
  · intro single single'
    have levels : depth second.length = 0 := by
      rw [single']
      decide
    exact combinedRoot_eq_root_append (by rw [single, Nat.pow_zero])
      (List.length_pos_iff.mp (by omega)) levels

/-- An empty tree on either side, a tree of depth 32, and two trees that are halves of one. -/
theorem verify_combinedRoot_three_and_none :
    let three := [filled 1, filled 2, filled 3]
    let deep := List.replicate (2 ^ 31 + 1) (filled 1)
    (three.length ≤ maxLeaves ∧ 2 = (ceilLog2 (UInt32.ofNat three.length)).toNat ∧ 2 ≤ 31 ∧
      (2 : UInt32).toNat < three.length ∧
      (∃ siblings, siblings? .sha256 three 2 = some siblings ∧
        verify .sha256 (combinedRoot .sha256 three []) (filled 3) 2
          (siblings ++ [root .sha256 []]) = true) ∧
      (2 : UInt32).toNat + 2 ^ 2 < UInt32.size ∧
      ∃ siblings, siblings? .sha256 three 2 = some siblings ∧
        verify .sha256 (combinedRoot .sha256 [] three) (filled 3)
          (UInt32.ofNat ((2 : UInt32).toNat + 2 ^ 2)) (siblings ++ [root .sha256 []]) = true) ∧
    (deep.length ≤ maxLeaves ∧ (ceilLog2 (UInt32.ofNat deep.length)).toNat = 32 ∧
      (7 : UInt32).toNat < deep.length ∧
      ∃ siblings, siblings? .sha256 deep 7 = some siblings ∧
        ∀ other, (siblings ++ [other]).length = 33 ∧
          ∀ root leaf place, verify .sha256 root leaf place (siblings ++ [other]) = false) ∧
    (1 ≤ 2 ∧ (three ++ [filled 4]).length = 2 ^ 2 ∧ 2 ^ (2 - 1) < three.length ∧
      three.length ≤ 2 ^ 2 ∧ combinedRoot .sha256 (three ++ [filled 4]) three =
        root .sha256 (three ++ [filled 4] ++ three)) ∧
    ([filled 1].length = 1 ∧ [filled 2].length = 1 ∧
      combinedRoot .sha256 [filled 1] [filled 2] = root .sha256 ([filled 1] ++ [filled 2])) := by
  intro three deep
  have few : three.length ≤ maxLeaves := by decide
  have levels : 2 = (ceilLog2 (UInt32.ofNat three.length)).toNat := by decide
  have inside : (2 : UInt32).toNat < three.length := by decide
  have count : deep.length = 2 ^ 31 + 1 := List.length_replicate
  have deep_few : deep.length ≤ maxLeaves := by
    rw [count]
    decide
  have deep_levels : (ceilLog2 (UInt32.ofNat deep.length)).toNat = 32 := by
    rw [count]
    decide
  have deep_inside : (7 : UInt32).toNat < deep.length := by
    rw [count]
    decide
  have ahead := (verify_combinedRoot .sha256 three []).1 few (by decide) 2 inside
  have behind := (verify_combinedRoot .sha256 [] three).2.1 few 2 levels (by decide) 2 inside
  have rejected := (verify_combinedRoot .sha256 three deep).2.2.1 deep deep_few deep_levels 7
    deep_inside
  have halves := (verify_combinedRoot .sha256 (three ++ [filled 4]) three).2.2.2.1 2 (by decide)
    (by decide) (by decide) (by decide)
  have pair := (verify_combinedRoot .sha256 [filled 1] [filled 2]).2.2.2.2 rfl rfl
  exact ⟨⟨few, levels, by decide, inside, ahead, behind⟩,
    ⟨deep_few, deep_levels, deep_inside, rejected⟩,
    ⟨by decide, by decide, by decide, by decide, halves⟩, rfl, rfl, pair⟩

end Merkle.Tree
