import Merkle.Proofs.Composition
import Merkle.Proofs.Opening

/-!
# Paths: where the nodes and the siblings of a proof stand

The climb from a leaf passes, at each height, through the node above the leaf (`getElem?_path`), and
the sibling taken there is the neighbour of that node in the padded level (`getElem?_siblings`).
Both say of a single entry what the loop of generation and the loop of verification compute in
passing.
-/
namespace Merkle.Tree

/-- The node that a node of a level is joined with: the other one of its pair, or itself if it is
the last one of an odd level. -/
def neighbour (count number : Nat) : Nat := min (number ^^^ 1) (count - 1)

theorem xor_one_eq (number : Nat) : number ^^^ 1 = 2 * (number / 2) + (1 - number % 2) := by
  have half : (number ^^^ 1) / 2 = number / 2 := by
    rw [Nat.xor_div_two]
    simp
  have low := @Nat.xor_mod_two_eq_one number 1
  omega

theorem neighbour_half {count number : Nat} (inside : number < count) :
    neighbour count number / 2 = number / 2 := by
  rw [neighbour, xor_one_eq]
  omega

theorem neighbour_eq_self_iff {count number : Nat} (inside : number < count) :
    neighbour count number = number ↔ count % 2 = 1 ∧ number = count - 1 := by
  rw [neighbour, xor_one_eq]
  omega

/-- Two nodes of one parent are neighbours. -/
theorem neighbour_eq {count number other : Nat} (inside : other < count)
    (different : number ≠ other) (half : number / 2 = other / 2) :
    neighbour count number = other := by
  rw [neighbour, xor_one_eq]
  omega

variable {hasher : Hasher} {leaves siblings : List Digest} {index : UInt32} {height : Nat}

theorem one_lt_width (below : height < depth leaves.length) : 1 < width leaves.length height := by
  rw [lt_width_iff, Nat.one_mul]
  exact lt_depth_iff.mp below

theorem highBits_lt_size (inside : index.toNat < leaves.length) :
    (highBits index height).toNat < (levelAt hasher leaves height).size := by
  rw [toNat_highBits, size_levelAt]
  exact div_lt_width inside height

/-- The sibling at a height stands beside the node there, in the padded level. -/
theorem getElem?_siblings_padded (found : siblings? hasher leaves index = some siblings)
    (below : height < depth leaves.length)
    (beside : (highBits index height ^^^ 1).toNat < (levelAt hasher leaves height).pad.size) :
    siblings[height]? =
      some (levelAt hasher leaves height).pad[(highBits index height ^^^ 1).toNat] := by
  have risen : (highBits index height).toNat < (levelAt hasher leaves height).size :=
    highBits_lt_size (lt_length_of_siblings? found)
  obtain ⟨inside, rfl⟩ := exists_climbSiblings found
  have several : (levelAt hasher leaves height).size ≠ 1 := by
    have wide := one_lt_width below
    rw [size_levelAt]
    omega
  have above := toNat_shiftRight_one_lt hasher risen
  rw [Level.fold_pad] at above
  have upper : (climbSiblings hasher leaves.toArray index inside).drop height =
      climbSiblings hasher (levelAt hasher leaves height) (highBits index height) risen := by
    apply drop_climbSiblings _ inside (toNat_highBits index height)
    rw [List.size_toArray]
    exact Nat.le_of_lt below
  have first := congrArg (·[0]?) upper
  rw [climbSiblings_many several risen beside above] at first
  simpa only [List.getElem?_drop, Nat.add_zero, List.getElem?_cons_zero] using first

/-- The sibling at a height is the neighbour of the node there. -/
theorem getElem?_siblings (found : siblings? hasher leaves index = some siblings)
    (below : height < depth leaves.length) :
    siblings[height]? = (levelAt hasher leaves height)[
      neighbour (width leaves.length height) (index.toNat / 2 ^ height)]? := by
  have size := size_levelAt hasher leaves height
  have wide := one_lt_width below
  have flipped : (highBits index height ^^^ 1).toNat = index.toNat / 2 ^ height ^^^ 1 := by
    rw [UInt32.toNat_xor, toNat_highBits]
    rfl
  have risen : (highBits index height).toNat < (levelAt hasher leaves height).size :=
    highBits_lt_size (lt_length_of_siblings? found)
  have beside := toNat_xor_one_lt risen
  rw [getElem?_siblings_padded found below beside, Level.getElem_pad _ _ beside (by omega),
    neighbour, Array.getElem?_eq_getElem (by omega)]
  simp only [size, flipped]

/-- The climb passes through the node above the leaf at each height. -/
theorem getElem?_path {leaf : Digest} (found : siblings? hasher leaves index = some siblings)
    (leaf_at : leaves[index.toNat]? = some leaf) (low : height ≤ depth leaves.length) :
    (levelAt hasher leaves height)[index.toNat / 2 ^ height]? =
      some (climb hasher index leaf (siblings.take height)) := by
  induction height with
  | zero =>
    rw [Nat.pow_zero, Nat.div_one, List.take_zero, climb, ← leaf_at]
    exact List.getElem?_toArray
  | succ height ih =>
    obtain ⟨risen, node⟩ := Array.getElem?_eq_some_iff.mp (ih (Nat.le_of_succ_le low))
    have own := toNat_highBits index height
    have inside : (highBits index height).toNat < (levelAt hasher leaves height).size := by
      rwa [own]
    have beside := toNat_xor_one_lt inside
    have above := toNat_shiftRight_one_lt hasher inside
    rw [Level.fold_pad] at above
    have step : joinSibling hasher (highBits index height)
        (levelAt hasher leaves height)[(highBits index height).toNat]
        (levelAt hasher leaves height).pad[(highBits index height ^^^ 1).toNat] =
          ((levelAt hasher leaves height).fold hasher)[(highBits index height >>> 1).toNat] :=
      joinSibling_padded inside beside above (by omega)
    have lower : (siblings.take height).length = height := by
      rw [List.length_take, length_of_siblings? found]
      omega
    have parent : index.toNat / 2 ^ (height + 1) = (highBits index height >>> 1).toNat := by
      rw [toNat_shiftRight_one, own, Nat.pow_succ, Nat.div_div_eq_div_mul]
    rw [List.take_add_one, getElem?_siblings_padded found low beside, climb_append, lower,
      Option.toList_some, climb, climb, ← node, levelAt_succ, parent,
      Array.getElem?_eq_getElem above, ← step]
    simp only [own]

end Merkle.Tree
