import Merkle.Proofs.Acceptance
import Merkle.Proofs.Blocks
import Merkle.Proofs.Path

/-!
# Sharding: proofs across a block boundary

The way from a leaf to the root goes up inside its block, then through pairings of the block with
itself if the block is short, then through the tree over the blocks. The siblings are met in the same
three parts (`siblings_of_blocks`): folding once keeps a cut around a block (`Cut.parents`), and the
neighbour of a node is found inside its block (`Cut.getElem_pad`).
-/
namespace Merkle.Tree

/-- A level cut around one block for height `k`: before the block are whole blocks, and only the
last block is short. -/
structure Cut (k : Nat) (before part after : List Digest) : Prop where
  whole : 2 ^ k ∣ before.length
  nonempty : 0 < part.length
  fits : part.length ≤ 2 ^ k
  last_of_short : part.length < 2 ^ k → after = []

variable {hasher : Hasher} {k : Nat} {before part after : List Digest}

theorem Cut.even_before (cut : Cut (k + 1) before part after) : before.length % 2 = 0 := by
  obtain ⟨count, length_eq⟩ := cut.whole
  rw [Nat.pow_succ', Nat.mul_assoc] at length_eq
  omega

theorem Cut.parents_eq (cut : Cut (k + 1) before part after) :
    parents hasher (before ++ (part ++ after)) =
      parents hasher before ++ (parents hasher part ++ parents hasher after) := by
  rw [parents_append cut.even_before]
  by_cases short : part.length < 2 ^ (k + 1)
  · rw [cut.last_of_short short, List.append_nil, parents, List.append_nil]
  · have fits := cut.fits
    rw [Nat.pow_succ'] at fits short
    rw [parents_append (by omega)]

/-- Folding once leaves a cut for one level less. -/
theorem Cut.parents (cut : Cut (k + 1) before part after) :
    Cut k (parents hasher before) (parents hasher part) (parents hasher after) := by
  obtain ⟨⟨count, length_eq⟩, nonempty, fits, last_of_short⟩ := cut
  rw [Nat.pow_succ'] at fits last_of_short
  rw [Nat.pow_succ', Nat.mul_assoc] at length_eq
  refine ⟨⟨count, ?_⟩, ?_, ?_, ?_⟩
  · rw [length_parents]
    omega
  · rw [length_parents]
    omega
  · rw [length_parents]
    omega
  · intro short
    rw [length_parents] at short
    rw [last_of_short (by omega)]
    rfl

theorem getElem_append_block {j : Nat} (inside : j < part.length)
    (inside' : before.length + j < (before ++ (part ++ after)).length) :
    (before ++ (part ++ after))[before.length + j] = part[j] := by
  rw [List.getElem_append_right (Nat.le_add_right _ _)]
  simp only [Nat.add_sub_cancel_left, List.getElem_append_left inside]

variable {index own : UInt32}

/-- The neighbour of a node of the block, padding included, is the one that the block alone has. -/
theorem Cut.getElem_pad (cut : Cut (k + 1) before part after)
    (place : index.toNat = before.length + own.toNat) (inside : own.toNat < part.length)
    (beside : (index ^^^ 1).toNat < (Level.pad (before ++ (part ++ after)).toArray).size)
    (beside' : (own ^^^ 1).toNat < (Level.pad part.toArray).size) :
    (Level.pad (before ++ (part ++ after)).toArray)[(index ^^^ 1).toNat] =
      (Level.pad part.toArray)[(own ^^^ 1).toNat] := by
  have even := cut.even_before
  have neighbour := toNat_xor_one index
  have neighbour' := toNat_xor_one own
  have total : (before ++ (part ++ after)).toArray.size =
      before.length + (part.length + after.length) := by
    rw [List.size_toArray, List.length_append, List.length_append]
  have size : part.toArray.size = part.length := List.size_toArray
  have moved : min (index ^^^ 1).toNat ((before ++ (part ++ after)).toArray.size - 1) =
      before.length + min (own ^^^ 1).toNat (part.toArray.size - 1) := by
    -- A short block ends where the level ends; in a full one every node has its neighbour.
    by_cases short : part.length < 2 ^ (k + 1)
    · have none_after : after.length = 0 := by rw [cut.last_of_short short, List.length_nil]
      omega
    · have fits := cut.fits
      rw [Nat.pow_succ'] at fits short
      omega
  rw [Level.getElem_pad _ _ beside (by omega), Level.getElem_pad _ _ beside' (by omega)]
  simp only [moved, List.getElem_toArray]
  exact getElem_append_block (by omega) _

theorem root_parents (many : 1 < part.length) :
    root hasher (parents hasher part) = root hasher part := by
  have nonempty : part ≠ [] := List.length_pos_iff.mp (by omega)
  have low : 1 ≤ depth part.length := by
    rw [depth_parents many]
    omega
  rw [← root_blockRoots nonempty low, ← iterate_parents_eq_blockRoots, Function.iterate_one]

/-- The siblings of a node of a block up to height `k`: those in the block, and then the digests that
the block is paired with on its way up. -/
def blockSiblings (hasher : Hasher) (k : Nat) (part : List Digest) (own : UInt32)
    (inside : own.toNat < part.toArray.size) : List Digest :=
  climbSiblings hasher part.toArray own inside ++
    selfPairs hasher (k - depth part.length) (root hasher part)

/-- A block that is not yet one node gives its next sibling; one that is gives itself. -/
theorem blockSiblings_succ (inside : own.toNat < part.toArray.size)
    (fits : part.length ≤ 2 ^ (k + 1))
    (beside : (own ^^^ 1).toNat < (Level.pad part.toArray).size)
    (above : (own >>> 1).toNat < (parents hasher part).toArray.size) :
    blockSiblings hasher (k + 1) part own inside =
      (Level.pad part.toArray)[(own ^^^ 1).toNat] ::
        blockSiblings hasher k (parents hasher part) (own >>> 1) above := by
  have size : part.toArray.size = part.length := List.size_toArray
  unfold blockSiblings
  by_cases single : part.length = 1
  · -- There is no climb left; the neighbour of the one node is its copy.
    obtain ⟨node, rfl⟩ := List.length_eq_one_iff.mp single
    have first : own.toNat = 0 := by omega
    have itself : (Level.pad [node].toArray)[(own ^^^ 1).toNat] = node := by
      rw [Level.getElem_pad _ _ beside (by omega)]
      simp
    rw [climbSiblings_single rfl, climbSiblings_single rfl, itself, List.nil_append,
      List.nil_append]
    exact selfPairs_succ hasher k node
  · have above' : (own >>> 1).toNat < (Level.fold hasher part.toArray).size := by
      rwa [fold_toArray]
    have levels : k + 1 - depth part.length = k - depth (parents hasher part).length := by
      rw [length_parents, depth_parents (by omega)]
      omega
    rw [climbSiblings_many (by omega) inside beside above', levels, root_parents (by omega),
      List.cons_append]
    simp only [fold_toArray]

/-- Below height `k` a block that is cut out of a level has the siblings that it has alone. The
induction goes up level by level; at each the block is cut out of a level of half the width. -/
theorem take_climbSiblings (hasher : Hasher) (cut : Cut k before part after)
    (tall : k ≤ depth (before ++ (part ++ after)).length)
    (place : index.toNat = before.length + own.toNat) (inside : own.toNat < part.toArray.size)
    (inside' : index.toNat < (before ++ (part ++ after)).toArray.size) :
    (climbSiblings hasher (before ++ (part ++ after)).toArray index inside').take k =
      blockSiblings hasher k part own inside := by
  induction k generalizing before part after index own with
  | zero =>
    have single : part.toArray.size = 1 := by
      have fits := cut.fits
      rw [List.size_toArray] at inside ⊢
      omega
    rw [List.take_zero, blockSiblings, climbSiblings_single single inside, Nat.zero_sub]
    rfl
  | succ k ih =>
    have even := cut.even_before
    have size : (before ++ (part ++ after)).toArray.size = (before ++ (part ++ after)).length :=
      List.size_toArray
    have size' : part.toArray.size = part.length := List.size_toArray
    have several : 1 < (before ++ (part ++ after)).length :=
      lt_depth_iff.mp (Nat.lt_of_lt_of_le (Nat.succ_pos k) tall)
    have above : (index >>> 1).toNat <
        (Level.fold hasher (before ++ (part ++ after)).toArray).size := by
      rw [toNat_shiftRight_one, Level.size_fold]
      omega
    have above' : (index >>> 1).toNat <
        (parents hasher before ++ (parents hasher part ++ parents hasher after)).toArray.size := by
      rwa [fold_toArray, cut.parents_eq] at above
    have own_above : (own >>> 1).toNat < (parents hasher part).toArray.size := by
      rw [toNat_shiftRight_one, List.size_toArray, length_parents]
      omega
    have tall_above : k ≤ depth
        (parents hasher before ++ (parents hasher part ++ parents hasher after)).length := by
      rw [← cut.parents_eq, length_parents]
      rw [depth_parents several] at tall
      omega
    have place_above :
        (index >>> 1).toNat = (parents hasher before).length + (own >>> 1).toNat := by
      rw [toNat_shiftRight_one, toNat_shiftRight_one, length_parents]
      omega
    have beside := toNat_xor_one_lt inside'
    have beside' := toNat_xor_one_lt inside
    rw [climbSiblings_many (by omega) inside' beside above, List.take_succ_cons,
      blockSiblings_succ inside cut.fits beside' own_above,
      cut.getElem_pad place (by omega) beside beside',
      ← ih cut.parents tall_above place_above own_above above']
    simp only [fold_toArray, cut.parents_eq]

variable {leaves : List Digest}

/-- A block as it is cut out of all leaves. -/
theorem cut_block {number : Nat} (inside : number < width leaves.length k) :
    Cut k (leaves.take (number * 2 ^ k)) (block k leaves number)
      ((leaves.drop (number * 2 ^ k)).drop (2 ^ k)) := by
  have size := Nat.two_pow_pos k
  rw [lt_width_iff] at inside
  refine ⟨⟨number, ?_⟩, ?_, ?_, ?_⟩
  · rw [List.length_take, Nat.mul_comm (2 ^ k)]
    omega
  · rw [length_block]
    omega
  · rw [length_block]
    omega
  · intro short
    rw [length_block] at short
    apply List.drop_of_length_le
    rw [List.length_drop]
    omega

theorem take_append_block (k : Nat) (leaves : List Digest) (number : Nat) :
    leaves.take (number * 2 ^ k) ++
      (block k leaves number ++ (leaves.drop (number * 2 ^ k)).drop (2 ^ k)) = leaves := by
  rw [block, List.take_append_drop, List.take_append_drop]

/-- The siblings of a leaf are those in its block, those of the block with itself, and those of the
block among all blocks. -/
theorem siblings_of_blocks (hasher : Hasher) (few : leaves.length ≤ maxLeaves)
    (below : k ≤ depth leaves.length) (inside : index.toNat < leaves.length) :
    ∃ within across,
      siblings? hasher (block k leaves (index.toNat / 2 ^ k)) (lowBits index k) = some within ∧
      siblings? hasher (blockRoots hasher k leaves) (highBits index k) = some across ∧
      siblings? hasher leaves index =
        some (within ++
          selfPairs hasher (k - depth (block k leaves (index.toNat / 2 ^ k)).length)
            (root hasher (block k leaves (index.toNat / 2 ^ k))) ++ across) := by
  have size := Nat.two_pow_pos k
  have parts := Nat.div_add_mod' index.toNat (2 ^ k)
  have low := Nat.mod_lt index.toNat size
  have number_inside := div_lt_width inside k
  have narrow := width_le leaves.length k
  have length_part := length_block k leaves (index.toNat / 2 ^ k)
  have split := take_append_block k leaves (index.toNat / 2 ^ k)
  have level := levelAt_eq_blockRoots hasher k leaves
  have inside' : index.toNat < leaves.toArray.size := by rwa [List.size_toArray]
  have own_inside : (lowBits index k).toNat <
      (block k leaves (index.toNat / 2 ^ k)).toArray.size := by
    rw [toNat_lowBits, List.size_toArray]
    omega
  have risen : (highBits index k).toNat < (levelAt hasher leaves k).size := by
    rwa [toNat_highBits, size_levelAt]
  have risen' : (highBits index k).toNat < (blockRoots hasher k leaves).toArray.size :=
    level ▸ risen
  have place : index.toNat =
      (leaves.take (index.toNat / 2 ^ k * 2 ^ k)).length + (lowBits index k).toNat := by
    rw [toNat_lowBits, List.length_take]
    omega
  have lower : (climbSiblings hasher leaves.toArray index inside').take k =
      blockSiblings hasher k (block k leaves (index.toNat / 2 ^ k)) (lowBits index k) own_inside := by
    have cut_out := take_climbSiblings hasher (cut_block number_inside) (by rwa [split]) place
      own_inside (by rwa [split])
    simpa only [split] using cut_out
  have upper : (climbSiblings hasher leaves.toArray index inside').drop k =
      climbSiblings hasher (blockRoots hasher k leaves).toArray (highBits index k) risen' := by
    have dropped : (climbSiblings hasher leaves.toArray index inside').drop k =
        climbSiblings hasher (levelAt hasher leaves k) (highBits index k) risen :=
      drop_climbSiblings (by rwa [List.size_toArray]) inside' (toNat_highBits index k) risen
    simpa only [level] using dropped
  refine ⟨_, _, siblings?_eq_some (by omega) own_inside,
    siblings?_eq_some (by rw [length_blockRoots]; omega) risen', ?_⟩
  rw [siblings?_eq_some few inside', ← List.take_append_drop k (climbSiblings _ _ _ _), lower,
    upper, blockSiblings]

/-- The first sibling is the neighbour on the lowest level, or the last node itself. -/
theorem getElem?_zero_of_siblings? {siblings : List Digest}
    (found : siblings? hasher leaves index = some siblings) (several : 1 < leaves.length) :
    siblings[0]? = leaves[min (index.toNat ^^^ 1) (leaves.length - 1)]? := by
  have deep : 0 < depth leaves.length := lt_depth_iff.mpr several
  rw [getElem?_siblings found deep, width_zero, Nat.pow_zero, Nat.div_one, neighbour]
  exact List.getElem?_toArray

/-- Up to height `k` a block has `k` siblings, however short it is. -/
theorem length_within {part within : List Digest}
    (found : siblings? hasher part own = some within) (fits : part.length ≤ 2 ^ k) :
    (within ++ selfPairs hasher (k - depth part.length) (root hasher part)).length = k := by
  have low : depth part.length ≤ k := depth_le_iff.mpr fits
  rw [List.length_append, length_of_siblings? found, length_selfPairs]
  omega

/-- Cut the leaves into blocks of `2 ^ k`, fewer than there are leaves. The root is the root over the
digests of the blocks; one level below the root that is one pair, so that trees fall into two from
the top down. The proof of a leaf is its proof in its block, then the digests that a short block is
paired with, then the proof of its block among the blocks; the entry at height `k` is the digest of
the sibling block. -/
theorem sharding (hasher : Hasher) {leaves : List Digest} (few : leaves.length ≤ maxLeaves) {k : Nat}
    (proper : 2 ^ k < leaves.length) :
    (∀ part ∈ blocks k leaves,
      depth part.length = (ceilLog2 (UInt32.ofNat part.length)).toNat) ∧
    root hasher leaves = root hasher (blockRoots hasher k leaves) ∧
    (k + 1 = (ceilLog2 (UInt32.ofNat leaves.length)).toNat →
      root hasher leaves = hasher.pair (root hasher (leaves.take (2 ^ k)))
        (blockRoot hasher k (leaves.drop (2 ^ k)))) ∧
    ∀ index : UInt32, index.toNat < leaves.length →
      ∃ part within across siblings,
        (blocks k leaves)[index.toNat / 2 ^ k]? = some part ∧
        siblings? hasher part (lowBits index k) = some within ∧
        siblings? hasher (blockRoots hasher k leaves) (highBits index k) = some across ∧
        siblings? hasher leaves index = some siblings ∧
        siblings = within ++ selfPairs hasher (k - depth part.length) (root hasher part) ++ across ∧
        siblings[k]? = (blockRoots hasher k leaves)[min (index.toNat / 2 ^ k ^^^ 1)
          ((blockRoots hasher k leaves).length - 1)]? := by
  have nonempty : leaves ≠ [] := List.length_pos_iff.mp (Nat.zero_lt_of_lt proper)
  have below : k < depth leaves.length := lt_depth_iff.mpr proper
  refine ⟨?_, (root_blockRoots nonempty (Nat.le_of_lt below)).symm, ?_, ?_⟩
  · intro part member
    obtain ⟨number, inside, rfl⟩ := List.mem_map.mp member
    rw [List.mem_range, lt_width_iff] at inside
    have positive := Nat.two_pow_pos k
    have length_part := length_block k leaves number
    rw [toNat_ceilLog2_ofNat (by omega) (by omega)]
  · intro top
    rw [toNat_ceilLog2_ofNat (List.length_pos_iff.mpr nonempty) few] at top
    exact root_eq_pair proper (depth_le_iff.mp (Nat.le_of_eq top.symm))
  · intro index inside
    have several : 1 < (blockRoots hasher k leaves).length := by
      rw [length_blockRoots, lt_width_iff, Nat.one_mul]
      exact proper
    obtain ⟨within, across, found_within, found_across, found⟩ :=
      siblings_of_blocks hasher few (Nat.le_of_lt below) inside
    have up_to_k := length_within found_within (k := k)
      (by rw [length_block]; exact Nat.min_le_left _ _)
    refine ⟨_, within, across, _, getElem?_blocks (div_lt_width inside k), found_within,
      found_across, found, rfl, ?_⟩
    rw [List.getElem?_append_right (Nat.le_of_eq up_to_k), up_to_k, Nat.sub_self,
      getElem?_zero_of_siblings? found_across several, toNat_highBits]

/-- Five leaves in blocks of four: the last block is a single leaf, which is paired with itself
twice. -/
theorem sharding_last_of_five :
    let leaves := [filled 1, filled 2, filled 3, filled 4, filled 5]
    leaves.length ≤ maxLeaves ∧ 2 ^ 2 < leaves.length ∧
      2 + 1 = (ceilLog2 (UInt32.ofNat leaves.length)).toNat ∧ (4 : UInt32).toNat < leaves.length ∧
      [filled 5] ∈ blocks 2 leaves ∧
      depth [filled 5].length = (ceilLog2 (UInt32.ofNat [filled 5].length)).toNat ∧
      root .sha256 leaves = root .sha256 (blockRoots .sha256 2 leaves) ∧
      root .sha256 leaves = Hasher.sha256.pair (root .sha256 (leaves.take (2 ^ 2)))
        (blockRoot .sha256 2 (leaves.drop (2 ^ 2))) ∧
      ∃ part within across siblings,
        (blocks 2 leaves)[(4 : UInt32).toNat / 2 ^ 2]? = some part ∧
        siblings? .sha256 part (lowBits 4 2) = some within ∧
        siblings? .sha256 (blockRoots .sha256 2 leaves) (highBits 4 2) = some across ∧
        siblings? .sha256 leaves 4 = some siblings ∧
        siblings = within ++ selfPairs .sha256 (2 - depth part.length) (root .sha256 part) ++
          across ∧
        siblings[2]? = (blockRoots .sha256 2 leaves)[min ((4 : UInt32).toNat / 2 ^ 2 ^^^ 1)
          ((blockRoots .sha256 2 leaves).length - 1)]? := by
  intro leaves
  have few : leaves.length ≤ maxLeaves := by decide
  have proper : 2 ^ 2 < leaves.length := by decide
  have top : 2 + 1 = (ceilLog2 (UInt32.ofNat leaves.length)).toNat := by decide
  have inside : (4 : UInt32).toNat < leaves.length := by decide
  have member : [filled 5] ∈ blocks 2 leaves := by decide
  obtain ⟨levels, over_blocks, from_top, split⟩ := sharding .sha256 few proper
  exact ⟨few, proper, top, inside, member, levels _ member, over_blocks, from_top top,
    split 4 inside⟩

end Merkle.Tree
