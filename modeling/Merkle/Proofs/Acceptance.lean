import Merkle.Proofs.Binding
import Merkle.Proofs.Logarithm
import Merkle.Proofs.Opening

/-!
# Acceptance: what verifies against the root of a tree

The proof of each leaf is accepted (`verify_siblings`). Against the root of a tree, at any height
and index, what is accepted is the opening of that index and nothing else, except where two
different pairs have one digest (`verify_root_cases`).
-/
namespace Merkle.Tree

theorem depth_le_maxDepth {count : Nat} (few : count ≤ maxLeaves) : depth count ≤ maxDepth :=
  depth_le_iff.mpr (Nat.le_trans few (by decide))

/-- The five steps give the depth of every tree that has proofs. -/
theorem toNat_ceilLog2_ofNat {count : Nat} (positive : 0 < count) (few : count ≤ maxLeaves) :
    (ceilLog2 (UInt32.ofNat count)).toNat = depth count := by
  have same := toNat_ofNat_of_few few
  rw [toNat_ceilLog2 (by rwa [same]), same]

/-- The siblings of a leaf are accepted for it. -/
theorem verify_of_siblings? {hasher : Hasher} {leaves siblings : List Digest} {leaf : Digest}
    {index : UInt32} (few : leaves.length ≤ maxLeaves)
    (found : siblings? hasher leaves index = some siblings)
    (leaf_at : leaves[index.toNat]? = some leaf) :
    verify hasher (root hasher leaves) leaf index siblings = true := by
  obtain ⟨inside, -⟩ := List.getElem?_eq_some_iff.mp leaf_at
  rw [verify_iff, length_of_siblings? found]
  exact ⟨depth_le_maxDepth few, lt_two_pow_depth inside, climb_of_siblings? found leaf_at⟩

/-- Every leaf has a proof, and the proof is accepted against the root. -/
theorem verify_siblings (hasher : Hasher) (leaves : List Digest) (few : leaves.length ≤ maxLeaves)
    (index : UInt32) (inside : index.toNat < leaves.length) :
    ∃ siblings, siblings? hasher leaves index = some siblings ∧
      verify hasher (root hasher leaves) leaves[index.toNat] index siblings = true := by
  have nonempty : leaves ≠ [] := List.length_pos_iff.mp (Nat.zero_lt_of_lt inside)
  have occupied := List.length_pos_iff.mpr nonempty
  obtain ⟨node, siblings, ⟨node_at, -, _, found, rfl⟩, length_eq, reached⟩ :=
    exists_opening hasher nonempty few (Nat.zero_le _) index
  have own : position leaves.length (depth leaves.length - 0) 0 index.toNat = index.toNat := by
    apply position_eq
    · rw [Nat.zero_add, Nat.sub_zero, width_depth occupied]
    · rwa [width_zero]
  rw [own, Nat.pow_zero, Nat.mul_one, UInt32.ofNat_toNat] at found
  have leaf : leaves[index.toNat] = node := by
    rw [own, levelAt, Level.rise_zero, List.getElem?_toArray,
      List.getElem?_eq_getElem inside] at node_at
    exact Option.some.inj node_at
  rw [Nat.sub_zero] at length_eq
  refine ⟨siblings, found, verify_iff.mpr ⟨?_, ?_, ?_⟩⟩
  · rw [length_eq]
    exact depth_le_maxDepth few
  · rw [length_eq]
    exact Nat.lt_of_lt_of_le inside (depth_le_iff.mp (Nat.le_refl _))
  · rw [leaf, reached]

/-- The last leaf of an odd level: its sibling is a copy of itself. -/
theorem verify_siblings_last_of_five :
    let leaves := [filled 1, filled 2, filled 3, filled 4, filled 5]
    leaves.length ≤ maxLeaves ∧ (4 : UInt32).toNat < leaves.length ∧
      ∃ siblings, siblings? .sha256 leaves 4 = some siblings ∧
        verify .sha256 (root .sha256 leaves) (filled 5) 4 siblings = true :=
  ⟨by decide, by decide,
    verify_siblings .sha256 [filled 1, filled 2, filled 3, filled 4, filled 5] (by decide) 4
      (by decide)⟩

/-- Take an index of the full tree at height `low`, below `2 ^ (d - low)` for a tree of depth `d`.
Its opening is accepted against the root, and whatever else is accepted there with as many siblings
hashes at some step a different pair than the opening does, to the same digest. -/
theorem verify_root_cases (hasher : Hasher) {leaves : List Digest} (nonempty : leaves ≠ [])
    (few : leaves.length ≤ maxLeaves) {d : Nat}
    (levels : d = (ceilLog2 (UInt32.ofNat leaves.length)).toNat) {low : Nat} (below : low ≤ d)
    (index : UInt32) (inside : index.toNat < 2 ^ (d - low)) :
    (∀ height, height ≤ d → (levelAt hasher leaves height).size = width leaves.length height) ∧
    ∃ node siblings, Opening hasher leaves (d - low) low index.toNat node siblings ∧
      siblings.length = d - low ∧
      ∀ leaf path, path.length = d - low →
        (leaf = node ∧ path = siblings →
          verify hasher (root hasher leaves) leaf index path = true) ∧
        (verify hasher (root hasher leaves) leaf index path = true →
          (leaf = node ∧ path = siblings) ∨
            Collide hasher (hashedPairs hasher index leaf path)
              (hashedPairs hasher index node siblings)) := by
  have count := toNat_ofNat_of_few few
  rw [toNat_ceilLog2 (by rw [count]; exact List.length_pos_iff.mpr nonempty), count] at levels
  subst levels
  obtain ⟨node, siblings, opening, length_eq, reached⟩ :=
    exists_opening hasher nonempty few below index
  refine ⟨fun height _ => size_levelAt hasher leaves height, node, siblings, opening, length_eq, ?_⟩
  intro leaf path same
  have short : depth leaves.length - low ≤ maxDepth :=
    Nat.le_trans (Nat.sub_le _ _) (depth_le_maxDepth few)
  constructor
  · rintro ⟨rfl, rfl⟩
    exact verify_iff.mpr ⟨by rwa [length_eq], by rwa [length_eq], reached⟩
  · intro accepted
    obtain ⟨-, -, arrived⟩ := verify_iff.mp accepted
    rcases climb_eq_cases (same.trans length_eq.symm) (by rwa [same]) (by rwa [length_eq])
      (arrived.trans reached.symm) with collide | ⟨-, sameLeaf, samePath⟩ | ⟨bit, crossing⟩
    · exact .inr collide
    · exact .inl ⟨sameLeaf, samePath⟩
    · exact absurd rfl crossing.highest.differs

/-- An index past the third node of a level: the last node stands in for it. -/
theorem verify_root_cases_past_the_end :
    let leaves := [filled 1, filled 2, filled 3, filled 4, filled 5]
    leaves ≠ [] ∧ leaves.length ≤ maxLeaves ∧
      3 = (ceilLog2 (UInt32.ofNat leaves.length)).toNat ∧ 1 ≤ 3 ∧ (3 : UInt32).toNat < 2 ^ (3 - 1) ∧
    (∀ height, height ≤ 3 → (levelAt .sha256 leaves height).size = width leaves.length height) ∧
    ∃ node siblings, Opening .sha256 leaves (3 - 1) 1 3 node siblings ∧ siblings.length = 3 - 1 ∧
      ∀ leaf path, path.length = 3 - 1 →
        (leaf = node ∧ path = siblings →
          verify .sha256 (root .sha256 leaves) leaf 3 path = true) ∧
        (verify .sha256 (root .sha256 leaves) leaf 3 path = true →
          (leaf = node ∧ path = siblings) ∨
            Collide .sha256 (hashedPairs .sha256 3 leaf path)
              (hashedPairs .sha256 3 node siblings)) := by
  intro leaves
  have levels : 3 = (ceilLog2 (UInt32.ofNat leaves.length)).toNat := by decide
  exact ⟨by decide, by decide, levels, by decide, by decide,
    verify_root_cases .sha256 (by decide) (by decide) levels (by decide) 3 (by decide)⟩

end Merkle.Tree
