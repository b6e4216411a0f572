import Merkle.Proofs.Levels

/-!
# Blocks: trees over the roots of smaller trees

Leaves are cut into blocks of `2 ^ k`. Folding works on each block by itself, since a block starts at
an even index of every level below height `k`; so the level at height `k` holds one digest for each
block (`iterate_parents_eq_blockRoots`). Only the last block can be short: it reaches that height by
being paired with itself. The root of all leaves is the root over the digests of the blocks
(`root_blockRoots`), and a tree falls into two from the top down (`root_eq_pair`).
-/
namespace Merkle.Tree

/-- The digest after `count` pairings with itself. -/
def selfPair (hasher : Hasher) (count : Nat) (node : Digest) : Digest :=
  (fun node => hasher.pair node node)^[count] node

/-- The first `count` digests on the way of pairing with itself, the node first. -/
def selfPairs (hasher : Hasher) (count : Nat) (node : Digest) : List Digest :=
  (List.range count).map fun times => selfPair hasher times node

/-- The block of `2 ^ k` leaves with the given number; the last one may be shorter. -/
def block (k : Nat) (leaves : List Digest) (number : Nat) : List Digest :=
  (leaves.drop (number * 2 ^ k)).take (2 ^ k)

/-- All leaves in consecutive blocks. -/
def blocks (k : Nat) (leaves : List Digest) : List (List Digest) :=
  (List.range (width leaves.length k)).map (block k leaves)

/-- The root of a block, paired with itself once for each level that it is short of height `k`. -/
def blockRoot (hasher : Hasher) (k : Nat) (leaves : List Digest) : Digest :=
  selfPair hasher (k - depth leaves.length) (root hasher leaves)

/-- One digest for each block. -/
def blockRoots (hasher : Hasher) (k : Nat) (leaves : List Digest) : List Digest :=
  (blocks k leaves).map (blockRoot hasher k)

theorem length_block (k : Nat) (leaves : List Digest) (number : Nat) :
    (block k leaves number).length = min (2 ^ k) (leaves.length - number * 2 ^ k) := by
  rw [block, List.length_take, List.length_drop]

@[simp] theorem selfPair_zero (hasher : Hasher) (node : Digest) :
    selfPair hasher 0 node = node := rfl

theorem selfPair_succ (hasher : Hasher) (count : Nat) (node : Digest) :
    selfPair hasher (count + 1) node = selfPair hasher count (hasher.pair node node) :=
  Function.iterate_succ_apply ..

theorem selfPairs_succ (hasher : Hasher) (count : Nat) (node : Digest) :
    selfPairs hasher (count + 1) node =
      node :: selfPairs hasher count (hasher.pair node node) := by
  simp only [selfPairs, List.range_succ_eq_map, List.map_cons, List.map_map, selfPair_zero,
    Function.comp_def, Nat.succ_eq_add_one, selfPair_succ]

@[simp] theorem length_selfPairs (hasher : Hasher) (count : Nat) (node : Digest) :
    (selfPairs hasher count node).length = count := by
  simp [selfPairs]

variable {hasher : Hasher} {leaves : List Digest} {k : Nat}

theorem fold_toArray (level : List Digest) :
    Level.fold hasher level.toArray = (parents hasher level).toArray :=
  congrArg List.toArray (Level.toList_fold hasher level.toArray)

/-- Levels as lists. -/
theorem levelAt_eq_iterate (hasher : Hasher) (leaves : List Digest) (height : Nat) :
    levelAt hasher leaves height = ((parents hasher)^[height] leaves).toArray := by
  induction height with
  | zero => rfl
  | succ height ih =>
    rw [levelAt_succ, ih, fold_toArray, Function.iterate_succ_apply']

/-- No pair lies across an even boundary. -/
theorem parents_append {before : List Digest} (even : before.length % 2 = 0)
    (after : List Digest) :
    parents hasher (before ++ after) = parents hasher before ++ parents hasher after := by
  fun_induction parents hasher before with
  | case1 => rfl
  | case2 last => simp at even
  | case3 left right rest ih =>
    simp only [List.length_cons] at even
    rw [List.cons_append, List.cons_append, parents, ih (by omega), List.cons_append]

/-- A boundary at a multiple of `2 ^ k` is even on all levels below height `k`. -/
theorem iterate_parents_append {before : List Digest} (whole : 2 ^ k ∣ before.length)
    (after : List Digest) :
    (parents hasher)^[k] (before ++ after) =
      (parents hasher)^[k] before ++ (parents hasher)^[k] after := by
  induction k generalizing before after with
  | zero => rfl
  | succ k ih =>
    obtain ⟨count, length_eq⟩ := whole
    rw [Nat.pow_succ', Nat.mul_assoc] at length_eq
    have halved : 2 ^ k ∣ (parents hasher before).length := by
      refine ⟨count, ?_⟩
      rw [length_parents]
      omega
    rw [Function.iterate_succ_apply, Function.iterate_succ_apply, Function.iterate_succ_apply,
      parents_append (by omega), ih halved]

theorem iterate_parents_singleton (node : Digest) :
    (parents hasher)^[k] [node] = [selfPair hasher k node] := by
  induction k generalizing node with
  | zero => rfl
  | succ k ih =>
    rw [Function.iterate_succ_apply, selfPair_succ]
    exact ih (hasher.pair node node)

theorem iterate_parents_depth (nonempty : leaves ≠ []) :
    (parents hasher)^[depth leaves.length] leaves = [root hasher leaves] := by
  have single := size_levelAt hasher leaves (depth leaves.length)
  rw [width_depth (List.length_pos_iff.mpr nonempty), levelAt_eq_iterate, List.size_toArray,
    List.length_eq_one_iff] at single
  obtain ⟨node, alone⟩ := single
  have top : some node = some (root hasher leaves) := by
    rw [← getElem?_levelAt_depth nonempty, levelAt_eq_iterate, alone]
    rfl
  rw [alone, Option.some.inj top]

/-- A block leaves one digest at height `k`. -/
theorem iterate_parents_block (nonempty : leaves ≠ []) (fits : leaves.length ≤ 2 ^ k) :
    (parents hasher)^[k] leaves = [blockRoot hasher k leaves] := by
  have levels : k - depth leaves.length + depth leaves.length = k :=
    Nat.sub_add_cancel (depth_le_iff.mpr fits)
  rw [← levels, Function.iterate_add_apply, iterate_parents_depth nonempty,
    iterate_parents_singleton, levels, blockRoot]

theorem width_sub_block {count : Nat} (nonempty : 0 < count) (k : Nat) :
    width count k = width (count - 2 ^ k) k + 1 := by
  apply eq_of_forall_ge_iff
  intro bound
  cases bound with
  | zero =>
    rw [width_le_iff, Nat.mul_zero]
    omega
  | succ bound =>
    rw [width_le_iff, Nat.add_le_add_iff_right, width_le_iff, Nat.mul_succ, Nat.sub_le_iff_le_add]

@[simp] theorem blocks_nil (k : Nat) : blocks k [] = [] := by
  have none_left : width 0 k = 0 := by
    rw [← Nat.le_zero, width_le_iff]
    exact Nat.zero_le _
  rw [blocks, List.length_nil, none_left, List.range_zero, List.map_nil]

/-- The first block, and the blocks of what is behind it. -/
theorem blocks_eq_cons (nonempty : leaves ≠ []) (k : Nat) :
    blocks k leaves = leaves.take (2 ^ k) :: blocks k (leaves.drop (2 ^ k)) := by
  have next (number : Nat) :
      block k leaves (number + 1) = block k (leaves.drop (2 ^ k)) number := by
    rw [block, block, List.drop_drop, Nat.succ_mul, Nat.add_comm]
  have first : block k leaves 0 = leaves.take (2 ^ k) := by
    rw [block, Nat.zero_mul, List.drop_zero]
  rw [blocks, blocks, width_sub_block (List.length_pos_iff.mpr nonempty), List.length_drop,
    List.range_succ_eq_map, List.map_cons, List.map_map, first]
  simp only [Function.comp_def, Nat.succ_eq_add_one, next]

theorem getElem?_blocks {number : Nat} (inside : number < width leaves.length k) :
    (blocks k leaves)[number]? = some (block k leaves number) := by
  rw [blocks, List.getElem?_map, List.getElem?_range inside, Option.map_some]

/-- The level at height `k` holds the digests of the blocks. -/
theorem iterate_parents_eq_blockRoots (hasher : Hasher) (k : Nat) (leaves : List Digest) :
    (parents hasher)^[k] leaves = blockRoots hasher k leaves := by
  induction length_eq : leaves.length using Nat.strong_induction_on generalizing leaves with
  | _ count ih =>
    by_cases nonempty : leaves = []
    · subst nonempty
      rw [blockRoots, blocks_nil, List.map_nil]
      exact Function.iterate_fixed rfl k
    · have positive := List.length_pos_iff.mpr nonempty
      have size := Nat.two_pow_pos k
      rw [blockRoots, blocks_eq_cons nonempty, List.map_cons, ← blockRoots]
      by_cases full : 2 ^ k ≤ leaves.length
      · have length_take : (leaves.take (2 ^ k)).length = 2 ^ k := by
          rw [List.length_take]
          omega
        have first : leaves.take (2 ^ k) ≠ [] := List.length_pos_iff.mp (by omega)
        have shorter : (leaves.drop (2 ^ k)).length < count := by
          rw [List.length_drop]
          omega
        conv => lhs; rw [← List.take_append_drop (2 ^ k) leaves]
        rw [iterate_parents_append (by rw [length_take]), ih _ shorter _ rfl,
          iterate_parents_block first (by rw [length_take]), List.singleton_append]
      · -- What is left is the last block.
        rw [List.drop_of_length_le (by omega), List.take_of_length_le (by omega), blockRoots,
          blocks_nil, List.map_nil, iterate_parents_block nonempty (by omega)]

theorem levelAt_eq_blockRoots (hasher : Hasher) (k : Nat) (leaves : List Digest) :
    levelAt hasher leaves k = (blockRoots hasher k leaves).toArray := by
  rw [levelAt_eq_iterate, iterate_parents_eq_blockRoots]

@[simp] theorem length_blockRoots (hasher : Hasher) (k : Nat) (leaves : List Digest) :
    (blockRoots hasher k leaves).length = width leaves.length k := by
  simp [blockRoots, blocks]

/-- The tree over the digests of the blocks has the root of all leaves. -/
theorem root_blockRoots (nonempty : leaves ≠ []) (below : k ≤ depth leaves.length) :
    root hasher (blockRoots hasher k leaves) = root hasher leaves := by
  have level := levelAt_eq_blockRoots hasher k leaves
  have occupied : 0 < (blockRoots hasher k leaves).toArray.size := by
    rw [List.size_toArray, length_blockRoots]
    exact width_pos (List.length_pos_iff.mpr nonempty) k
  rw [root_eq_collapse occupied, ← collapse_levelAt nonempty below (level ▸ occupied)]
  simp only [level]

theorem root_pair (hasher : Hasher) (left right : Digest) :
    root hasher [left, right] = hasher.pair left right := by
  have top : (parents hasher)^[depth [left, right].length] [left, right] =
      [root hasher [left, right]] := iterate_parents_depth (List.cons_ne_nil left [right])
  have one_level : depth [left, right].length = 1 := by
    rw [List.length_cons, List.length_singleton]
    decide
  rw [one_level, Function.iterate_one] at top
  exact (List.singleton_inj.mp top).symm

/-- A full block is at height `k` without any padding. -/
theorem blockRoot_of_full (full : leaves.length = 2 ^ k) :
    blockRoot hasher k leaves = root hasher leaves := by
  have levels : depth (2 ^ k) = k := Nat.clog_pow 2 k (by decide)
  rw [blockRoot, full, levels, Nat.sub_self, selfPair_zero]

/-- From the top down: the greatest power of two below the count of leaves goes to the left, and the
rest is brought to the same height. -/
theorem root_eq_pair (low : 2 ^ k < leaves.length) (high : leaves.length ≤ 2 ^ (k + 1)) :
    root hasher leaves =
      hasher.pair (root hasher (leaves.take (2 ^ k)))
        (blockRoot hasher k (leaves.drop (2 ^ k))) := by
  rw [Nat.pow_succ] at high
  have nonempty : leaves ≠ [] := List.length_pos_iff.mp (by omega)
  have behind : leaves.drop (2 ^ k) ≠ [] := by
    apply List.length_pos_iff.mp
    rw [List.length_drop]
    omega
  have rest_fits : (leaves.drop (2 ^ k)).length ≤ 2 ^ k := by
    rw [List.length_drop]
    omega
  have two : blocks k leaves = [leaves.take (2 ^ k), leaves.drop (2 ^ k)] := by
    rw [blocks_eq_cons nonempty, blocks_eq_cons behind, List.take_of_length_le rest_fits,
      List.drop_of_length_le rest_fits, blocks_nil]
  have first_full : (leaves.take (2 ^ k)).length = 2 ^ k := by
    rw [List.length_take]
    omega
  rw [← root_blockRoots nonempty (Nat.le_of_lt (lt_depth_iff.mpr low)), blockRoots, two,
    List.map_cons, List.map_singleton, root_pair, blockRoot_of_full first_full]

end Merkle.Tree
