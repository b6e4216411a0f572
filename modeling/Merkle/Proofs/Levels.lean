import Merkle.Proofs.Width
import Merkle.Tree.Root

/-!
# Levels: the nodes of a tree at every height

Folding a level again and again gives all levels of its tree (`Level.rise`). The root is the only
node of the last one, and the siblings of a proof stand in the padded levels, so root and siblings,
which are computed by loops of their own, are described by the same levels.
-/
namespace Merkle.Tree

namespace Level

/-- The level `height` folds above. -/
def rise (hasher : Hasher) (height : Nat) (level : Level) : Level := (fold hasher)^[height] level

@[simp] theorem rise_zero (hasher : Hasher) (level : Level) : level.rise hasher 0 = level := rfl

theorem rise_succ (hasher : Hasher) (height : Nat) (level : Level) :
    level.rise hasher (height + 1) = (level.rise hasher height).fold hasher :=
  Function.iterate_succ_apply' ..

theorem rise_fold (hasher : Hasher) (height : Nat) (level : Level) :
    (level.fold hasher).rise hasher height = level.rise hasher (height + 1) :=
  (Function.iterate_succ_apply ..).symm

theorem rise_rise (hasher : Hasher) (low height : Nat) (level : Level) :
    (level.rise hasher low).rise hasher height = level.rise hasher (height + low) :=
  (Function.iterate_add_apply ..).symm

@[simp] theorem size_rise (hasher : Hasher) (height : Nat) (level : Level) :
    (level.rise hasher height).size = width level.size height := by
  induction height with
  | zero => simp
  | succ height ih => rw [rise_succ, size_fold, ih, width_succ]

end Level

/-- The nodes at a height of the tree over some leaves. -/
def levelAt (hasher : Hasher) (leaves : List Digest) (height : Nat) : Level :=
  Level.rise hasher height leaves.toArray

theorem levelAt_succ (hasher : Hasher) (leaves : List Digest) (height : Nat) :
    levelAt hasher leaves (height + 1) = (levelAt hasher leaves height).fold hasher :=
  Level.rise_succ hasher height leaves.toArray

theorem rise_levelAt (hasher : Hasher) (leaves : List Digest) (low height : Nat) :
    (levelAt hasher leaves low).rise hasher height = levelAt hasher leaves (height + low) :=
  Level.rise_rise hasher low height leaves.toArray

@[simp] theorem size_levelAt (hasher : Hasher) (leaves : List Digest) (height : Nat) :
    (levelAt hasher leaves height).size = width leaves.length height := by
  simp [levelAt]

theorem size_toArray_pos {leaves : List Digest} (nonempty : leaves ≠ []) :
    0 < leaves.toArray.size := by
  rw [List.size_toArray]
  exact List.length_pos_iff.mpr nonempty

variable {hasher : Hasher} {level : Level}

/-- What is left at the end of folding is the node at the depth. -/
theorem getElem?_rise_depth (nonempty : 0 < level.size) :
    (level.rise hasher (depth level.size))[0]? = some (collapse hasher level nonempty) := by
  fun_induction collapse hasher level nonempty with
  | case1 level nonempty single => simp [single, depth]
  | case2 level nonempty many ih =>
    rw [Level.rise_fold, Level.size_fold] at ih
    rw [depth_parents (by omega)]
    exact ih

theorem root_eq_collapse {leaves : List Digest} (nonempty : 0 < leaves.toArray.size) :
    root hasher leaves = collapse hasher leaves.toArray nonempty := by
  match leaves, nonempty with
  | [leaf], _ => simp [root, collapse]
  | _ :: _ :: _, _ => rfl

/-- The root is the node at the depth. -/
theorem getElem?_levelAt_depth {leaves : List Digest} (nonempty : leaves ≠ []) :
    (levelAt hasher leaves (depth leaves.length))[0]? = some (root hasher leaves) := by
  have occupied := size_toArray_pos nonempty
  rw [root_eq_collapse occupied, ← getElem?_rise_depth occupied, List.size_toArray]
  rfl

/-- Every level up to the depth leads to the root. -/
theorem collapse_levelAt {leaves : List Digest} (nonempty : leaves ≠ []) {low : Nat}
    (below : low ≤ depth leaves.length) (occupied : 0 < (levelAt hasher leaves low).size) :
    collapse hasher (levelAt hasher leaves low) occupied = root hasher leaves := by
  have top : ((levelAt hasher leaves low).rise hasher
      (depth (levelAt hasher leaves low).size))[0]? =
        some (collapse hasher (levelAt hasher leaves low) occupied) :=
    getElem?_rise_depth occupied
  rw [size_levelAt, depth_width, rise_levelAt, Nat.sub_add_cancel below] at top
  exact Option.some.inj (top.symm.trans (getElem?_levelAt_depth nonempty))

variable {index : UInt32}

theorem climbSiblings_single (single : level.size = 1) (inside : index.toNat < level.size) :
    climbSiblings hasher level index inside = [] := by
  rw [climbSiblings, dif_pos single]

theorem climbSiblings_many (many : level.size ≠ 1) (inside : index.toNat < level.size)
    (beside : (index ^^^ 1).toNat < level.pad.size)
    (above : (index >>> 1).toNat < (level.fold hasher).size) :
    climbSiblings hasher level index inside =
      level.pad[(index ^^^ 1).toNat] ::
        climbSiblings hasher (level.fold hasher) (index >>> 1) above := by
  rw [climbSiblings, dif_neg many]
  simp only [Level.fold_pad]

/-- One sibling from each level but the last. -/
theorem length_climbSiblings (inside : index.toNat < level.size) :
    (climbSiblings hasher level index inside).length = depth level.size := by
  fun_induction climbSiblings hasher level index inside with
  | case1 level index inside single => simp [single, depth]
  | case2 level index inside many beside above padded ih =>
    have parents : (padded.fold hasher).size = (level.size + 1) / 2 := by
      rw [Level.fold_pad, Level.size_fold]
    rw [List.length_cons, ih, parents, ← depth_parents (by omega)]

/-- Siblings from some height on are the siblings of the node there. -/
theorem drop_climbSiblings {height : Nat} (below : height ≤ depth level.size)
    (inside : index.toNat < level.size) {own : UInt32}
    (ancestor : own.toNat = index.toNat / 2 ^ height)
    (risen : own.toNat < (level.rise hasher height).size) :
    (climbSiblings hasher level index inside).drop height =
      climbSiblings hasher (level.rise hasher height) own risen := by
  induction height generalizing level index with
  | zero =>
    obtain rfl : own = index := UInt32.toNat_inj.mp (by simpa using ancestor)
    rfl
  | succ height ih =>
    have many : level.size ≠ 1 := by
      intro single
      simp [single, depth] at below
    have above : (index >>> 1).toNat < (level.fold hasher).size := by
      rw [toNat_shiftRight_one, Level.size_fold]
      omega
    rw [climbSiblings_many many inside (toNat_xor_one_lt inside) above, List.drop_succ_cons]
    have lower : height ≤ depth (level.fold hasher).size := by
      rw [depth_parents (by omega)] at below
      rw [Level.size_fold]
      omega
    have ancestor' : own.toNat = (index >>> 1).toNat / 2 ^ height := by
      rw [ancestor, toNat_shiftRight_one, Nat.pow_succ', Nat.div_div_eq_div_mul]
    have risen' : own.toNat < ((level.fold hasher).rise hasher height).size := by
      rwa [Level.rise_fold]
    rw [ih lower above ancestor' risen']
    simp only [Level.rise_fold]

end Merkle.Tree
