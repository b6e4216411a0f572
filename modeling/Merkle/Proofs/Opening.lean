import Merkle.Proofs.Levels
import Merkle.Proofs.Verify

/-!
# Openings: a node with the siblings that its own tree has for it

The siblings of the node that an index stands for lead to the root also when the climb turns by the
bits of the index and not by those of the node: where the two disagree, the node is the last one of
an odd level, and both sides of its pair are the same (`joinSibling_padded`).
-/
namespace Merkle.Tree

/-- What the tree itself has for an index of the full tree `above` levels below the root, at height
`low`: the node that the index stands for, and the siblings of that node up to the root, which are
the last ones of the proof of the first leaf below it. -/
structure Opening (hasher : Hasher) (leaves : List Digest) (above low index : Nat) (node : Digest)
    (siblings : List Digest) : Prop where
  node_at : (levelAt hasher leaves low)[position leaves.length above low index]? = some node
  first_leaf : position leaves.length above low index * 2 ^ low < leaves.length
  siblings_from : ∃ all,
    siblings? hasher leaves (UInt32.ofNat (position leaves.length above low index * 2 ^ low)) =
      some all ∧ siblings = all.drop low

variable {hasher : Hasher} {level : Level} {index own : UInt32}

/-- One level of the climb. The node stands for an index; its neighbour is read off the padded
level, and joined on the side that the index says it gives the parent. -/
theorem joinSibling_padded (inside : own.toNat < level.size)
    (beside : (own ^^^ 1).toNat < level.pad.size)
    (above : (own >>> 1).toNat < (level.fold hasher).size)
    (stands : own.toNat = min (2 * (own.toNat / 2) + index.toNat % 2) (level.size - 1)) :
    joinSibling hasher index level[own.toNat] level.pad[(own ^^^ 1).toNat] =
      (level.fold hasher)[(own >>> 1).toNat] := by
  have neighbour := toNat_xor_one own
  have half := toNat_shiftRight_one own
  have parent : (level.fold hasher)[(own >>> 1).toNat]? = some (hasher.pair
      level[2 * (own >>> 1).toNat] level[min (2 * (own >>> 1).toNat + 1) (level.size - 1)]) :=
    Level.getElem?_fold hasher level _ (by omega) (by omega)
  rw [Array.getElem?_eq_getElem above, Option.some.injEq] at parent
  rw [parent, Level.getElem_pad level _ beside (by omega)]
  rcases Nat.mod_two_eq_zero_or_one index.toNat with even | odd
  · rw [joinSibling_even even]
    congr 2 <;> omega
  · rw [joinSibling_odd odd]
    congr 2 <;> omega

/-- The climb from the node that an index stands for. -/
theorem climb_climbSiblings (nonempty : 0 < level.size) (inside : own.toNat < level.size)
    (stands : own.toNat = position level.size (depth level.size) 0 index.toNat) :
    climb hasher index level[own.toNat] (climbSiblings hasher level own inside) =
      collapse hasher level nonempty := by
  fun_induction collapse hasher level nonempty generalizing index own with
  | case1 level nonempty single =>
    have first : own.toNat = 0 := by omega
    simp only [climbSiblings_single single, climb, first]
  | case2 level nonempty many ih =>
    have beside := toNat_xor_one_lt inside
    have above : (own >>> 1).toNat < (level.fold hasher).size := by
      rw [toNat_shiftRight_one, Level.size_fold]
      omega
    rw [depth_parents (by omega)] at stands
    have parent := position_half nonempty (depth ((level.size + 1) / 2)) 0 index.toNat
    rw [← stands] at parent
    have stands' : (own >>> 1).toNat = position (level.fold hasher).size
        (depth (level.fold hasher).size) 0 (index >>> 1).toNat := by
      rw [toNat_shiftRight_one, toNat_shiftRight_one, Level.size_fold, position_parents, parent]
    have turned : own.toNat = min (2 * (own.toNat / 2) + index.toNat % 2) (level.size - 1) := by
      rw [parent]
      rwa [position, width_zero] at stands
    rw [climbSiblings_many many inside beside above, climb,
      joinSibling_padded inside beside above turned, ih above stands']

theorem toNat_ofNat_of_few {count : Nat} (few : count ≤ maxLeaves) :
    (UInt32.ofNat count).toNat = count :=
  UInt32.toNat_ofNat_of_lt' (Nat.lt_of_le_of_lt few (by decide))

theorem siblings?_eq_some {leaves : List Digest} (few : leaves.length ≤ maxLeaves)
    (inside : index.toNat < leaves.toArray.size) :
    siblings? hasher leaves index = some (climbSiblings hasher leaves.toArray index inside) := by
  rw [siblings?, dif_pos ⟨few, by simpa using inside⟩]

theorem exists_siblings? (hasher : Hasher) {leaves : List Digest}
    (few : leaves.length ≤ maxLeaves) (inside : index.toNat < leaves.length) :
    ∃ siblings, siblings? hasher leaves index = some siblings :=
  ⟨_, siblings?_eq_some few (by rwa [List.size_toArray])⟩

theorem siblings?_eq_none_iff {leaves : List Digest} (few : leaves.length ≤ maxLeaves) :
    siblings? hasher leaves index = none ↔ leaves.length ≤ index.toNat := by
  simp only [siblings?, few, true_and, dite_eq_right_iff, reduceCtorEq, imp_false, Nat.not_lt]

/-- Siblings are only ever those met on the way up from a leaf that is there. -/
theorem exists_climbSiblings {leaves siblings : List Digest}
    (found : siblings? hasher leaves index = some siblings) :
    ∃ inside : index.toNat < leaves.toArray.size,
      siblings = climbSiblings hasher leaves.toArray index inside := by
  unfold siblings? at found
  split at found
  next here => exact ⟨by simpa using here.2, (Option.some.inj found).symm⟩
  next => cases found

theorem lt_length_of_siblings? {leaves siblings : List Digest}
    (found : siblings? hasher leaves index = some siblings) : index.toNat < leaves.length := by
  obtain ⟨inside, -⟩ := exists_climbSiblings found
  rwa [List.size_toArray] at inside

/-- There is one sibling for each level. -/
theorem length_of_siblings? {leaves siblings : List Digest}
    (found : siblings? hasher leaves index = some siblings) :
    siblings.length = depth leaves.length := by
  obtain ⟨inside, rfl⟩ := exists_climbSiblings found
  rw [length_climbSiblings, List.size_toArray]

/-- The siblings of a leaf lead from it to the root. -/
theorem climb_of_siblings? {leaves siblings : List Digest} {leaf : Digest}
    (found : siblings? hasher leaves index = some siblings)
    (leaf_at : leaves[index.toNat]? = some leaf) :
    climb hasher index leaf siblings = root hasher leaves := by
  obtain ⟨inside, rfl⟩ := exists_climbSiblings found
  have occupied : 0 < leaves.toArray.size := by omega
  have stands : index.toNat =
      position leaves.toArray.size (depth leaves.toArray.size) 0 index.toNat := by
    rw [position_eq (by rw [Nat.zero_add, width_depth occupied]) (by rwa [width_zero])]
  have own : leaf = leaves.toArray[index.toNat] := by
    rw [← List.getElem?_toArray, Array.getElem?_eq_getElem inside] at leaf_at
    exact (Option.some.inj leaf_at).symm
  rw [own, climb_climbSiblings occupied inside stands, root_eq_collapse occupied]

/-- The proof of the first leaf below a node ends with the siblings of the node. -/
theorem exists_siblings_drop {leaves : List Digest} (few : leaves.length ≤ maxLeaves)
    {low start : Nat} (below : low ≤ depth leaves.length)
    (first_leaf : start * 2 ^ low < leaves.length)
    (risen : (UInt32.ofNat start).toNat < (levelAt hasher leaves low).size) :
    ∃ all, siblings? hasher leaves (UInt32.ofNat (start * 2 ^ low)) = some all ∧
      climbSiblings hasher (levelAt hasher leaves low) (UInt32.ofNat start) risen =
        all.drop low := by
  have start_le : start ≤ start * 2 ^ low := Nat.le_mul_of_pos_right start (Nat.two_pow_pos low)
  have own : (UInt32.ofNat start).toNat = start := toNat_ofNat_of_few (by omega)
  have leaf : (UInt32.ofNat (start * 2 ^ low)).toNat = start * 2 ^ low :=
    toNat_ofNat_of_few (by omega)
  have inside : (UInt32.ofNat (start * 2 ^ low)).toNat < leaves.toArray.size := by
    rwa [leaf, List.size_toArray]
  have ancestor :
      (UInt32.ofNat start).toNat = (UInt32.ofNat (start * 2 ^ low)).toNat / 2 ^ low := by
    rw [own, leaf, Nat.mul_div_cancel _ (Nat.two_pow_pos low)]
  exact ⟨_, siblings?_eq_some few inside, (drop_climbSiblings below inside ancestor risen).symm⟩

/-- Every index has an opening, as long as the way up, and it leads to the root. -/
theorem exists_opening (hasher : Hasher) {leaves : List Digest} (nonempty : leaves ≠ [])
    (few : leaves.length ≤ maxLeaves) {low : Nat} (below : low ≤ depth leaves.length)
    (index : UInt32) :
    ∃ node siblings,
      Opening hasher leaves (depth leaves.length - low) low index.toNat node siblings ∧
        siblings.length = depth leaves.length - low ∧
        climb hasher index node siblings = root hasher leaves := by
  have within := position_lt_width (List.length_pos_iff.mpr nonempty) (depth leaves.length - low)
    low index.toNat
  have narrow : width leaves.length low ≤ leaves.length :=
    width_le_iff.mpr (Nat.le_mul_of_pos_left _ (Nat.two_pow_pos low))
  generalize start_eq : position leaves.length (depth leaves.length - low) low index.toNat = start
    at within
  have own : (UInt32.ofNat start).toNat = start := toNat_ofNat_of_few (by omega)
  have risen : (UInt32.ofNat start).toNat < (levelAt hasher leaves low).size := by
    rwa [own, size_levelAt]
  have stands : (UInt32.ofNat start).toNat = position (levelAt hasher leaves low).size
      (depth (levelAt hasher leaves low).size) 0 index.toNat := by
    rw [own, size_levelAt, depth_width, position_width, Nat.add_zero, start_eq]
  refine ⟨(levelAt hasher leaves low)[(UInt32.ofNat start).toNat],
    climbSiblings hasher (levelAt hasher leaves low) (UInt32.ofNat start) risen,
    ⟨?_, ?_, ?_⟩, ?_, ?_⟩
  · rw [start_eq, Array.getElem?_eq_getElem (by omega)]
    simp only [own]
  · rw [start_eq]
    exact lt_width_iff.mp within
  · rw [start_eq]
    exact exists_siblings_drop few below (lt_width_iff.mp within) risen
  · rw [length_climbSiblings, size_levelAt, depth_width]
  · rw [climb_climbSiblings (by omega) risen stands, collapse_levelAt nonempty below]

end Merkle.Tree
