import Mathlib.Algebra.Order.Floor.Div
import Mathlib.Data.Nat.Log

/-!
# Widths and positions: the shape of a padded tree

A tree of `count` leaves has `width count height` nodes at each height, half as many as below,
rounded up, and one at height `depth count`. Its full tree has a power of two of them at each
height. An index of the full tree stands for one of the nodes that are there (`position`): an index
without a node stands for what the last child of its parent stands for. Nothing here depends on
digests.
-/
namespace Merkle.Tree

/-- Nodes at a height over `count` leaves: `count` parts of `2 ^ height`, rounded up. -/
def width (count height : Nat) : Nat := (count + 2 ^ height - 1) / 2 ^ height

/-- The least `d` with `count ≤ 2 ^ d`. -/
def depth (count : Nat) : Nat := Nat.clog 2 count

/-- The node at `height` that an index among the full tree's nodes of that height stands for, with
`above` levels from there to the root. The parent is found first: its index is half as large. -/
def position (count : Nat) : (above height index : Nat) → Nat
  | 0, _, _ => 0
  | above + 1, height, index =>
    min (2 * position count above (height + 1) (index / 2) + index % 2) (width count height - 1)

theorem width_le_iff {count height bound : Nat} :
    width count height ≤ bound ↔ count ≤ 2 ^ height * bound :=
  ceilDiv_le_iff_le_mul (Nat.two_pow_pos height)

theorem lt_width_iff {count height index : Nat} :
    index < width count height ↔ index * 2 ^ height < count := by
  rw [← Nat.not_le, width_le_iff, Nat.not_le, Nat.mul_comm]

theorem depth_le_iff {count bound : Nat} : depth count ≤ bound ↔ count ≤ 2 ^ bound :=
  Nat.clog_le_iff_le_pow (by decide)

theorem lt_depth_iff {count bound : Nat} : bound < depth count ↔ 2 ^ bound < count := by
  rw [← Nat.not_le, depth_le_iff, Nat.not_le]

theorem lt_two_pow_depth {count number : Nat} (inside : number < count) :
    number < 2 ^ depth count :=
  Nat.lt_of_lt_of_le inside (depth_le_iff.mp (Nat.le_refl _))

/-- The node above an index is there. -/
theorem div_lt_width {count index : Nat} (inside : index < count) (height : Nat) :
    index / 2 ^ height < width count height :=
  lt_width_iff.mpr (Nat.lt_of_le_of_lt (Nat.div_mul_le_self _ _) inside)

theorem width_le (count height : Nat) : width count height ≤ count :=
  width_le_iff.mpr (Nat.le_mul_of_pos_left _ (Nat.two_pow_pos height))

@[simp] theorem width_zero (count : Nat) : width count 0 = count := by
  simp [width]

/-- Heights over the nodes of one level are heights over the leaves, counted from that level. -/
theorem width_width (count low height : Nat) :
    width (width count low) height = width count (low + height) := by
  apply eq_of_forall_ge_iff
  intro bound
  rw [width_le_iff, width_le_iff, width_le_iff, Nat.pow_add, Nat.mul_assoc]

theorem width_succ (count height : Nat) :
    width count (height + 1) = (width count height + 1) / 2 := by
  rw [← width_width]
  rfl

theorem width_pos {count : Nat} (nonempty : 0 < count) (height : Nat) : 0 < width count height := by
  induction height with
  | zero => rwa [width_zero]
  | succ height ih =>
    rw [width_succ]
    omega

/-- One node is left at the depth. -/
theorem width_depth {count : Nat} (nonempty : 0 < count) : width count (depth count) = 1 := by
  have narrow : width count (depth count) ≤ 1 := by
    rw [width_le_iff, Nat.mul_one, ← depth_le_iff]
  have occupied := width_pos nonempty (depth count)
  omega

/-- A level as low as `low` has as many levels fewer above it. -/
theorem depth_width (count low : Nat) : depth (width count low) = depth count - low := by
  apply eq_of_forall_ge_iff
  intro bound
  rw [depth_le_iff, width_le_iff, ← Nat.pow_add, ← depth_le_iff]
  omega

theorem depth_parents {count : Nat} (many : 1 < count) :
    depth count = depth ((count + 1) / 2) + 1 :=
  Nat.clog_of_one_lt (by decide) many

theorem isLeast_depth (count : Nat) : IsLeast {levels | count ≤ 2 ^ levels} (depth count) :=
  ⟨depth_le_iff.mp (Nat.le_refl _), fun _ enough => depth_le_iff.mpr enough⟩

theorem depth_eq_zero_iff {count : Nat} : depth count = 0 ↔ count ≤ 1 := by
  rw [← Nat.le_zero, depth_le_iff, Nat.pow_zero]

/-- One level fewer has too few places. -/
theorem two_pow_lt_of_depth_pos {count : Nat} (several : 0 < depth count) :
    2 ^ (depth count - 1) < count :=
  lt_depth_iff.mp (Nat.sub_lt several (by decide))

theorem depth_mono {count more : Nat} (le : count ≤ more) : depth count ≤ depth more :=
  Nat.clog_mono_right 2 le

theorem position_width (count low above height index : Nat) :
    position (width count low) above height index = position count above (low + height) index := by
  induction above generalizing height index with
  | zero => rfl
  | succ above ih => rw [position, position, ih, width_width, Nat.add_assoc]

theorem position_parents (count above index : Nat) :
    position ((count + 1) / 2) above 0 index = position count above 1 index :=
  position_width count 1 above 0 index

theorem position_lt_width {count : Nat} (nonempty : 0 < count) (above height index : Nat) :
    position count above height index < width count height := by
  have occupied := width_pos nonempty height
  cases above with
  | zero => exact occupied
  | succ above =>
    rw [position]
    omega

/-- The parent of the node stood for is the node that the parent stands for. -/
theorem position_half {count : Nat} (nonempty : 0 < count) (above height index : Nat) :
    position count (above + 1) height index / 2 =
      position count above (height + 1) (index / 2) := by
  have parent := position_lt_width nonempty above (height + 1) (index / 2)
  rw [width_succ] at parent
  rw [position]
  omega

theorem position_left {count : Nat} (nonempty : 0 < count) (above height index : Nat) :
    position count (above + 1) height (2 * index) =
      2 * position count above (height + 1) index := by
  have parent := position_lt_width nonempty above (height + 1) index
  rw [width_succ] at parent
  rw [position, Nat.mul_div_cancel_left index (by decide)]
  omega

theorem position_right (count above height index : Nat) :
    position count (above + 1) height (2 * index + 1) =
      min (2 * position count above (height + 1) index + 1) (width count height - 1) := by
  have half : (2 * index + 1) / 2 = index := by omega
  have odd : (2 * index + 1) % 2 = 1 := by omega
  rw [position, half, odd]

/-- An index that has a node stands for it. -/
theorem position_eq {count above height index : Nat} (top : width count (height + above) = 1)
    (inside : index < width count height) : position count above height index = index := by
  induction above generalizing height index with
  | zero =>
    rw [Nat.add_zero] at top
    rw [position]
    omega
  | succ above ih =>
    have parent : position count above (height + 1) (index / 2) = index / 2 := by
      apply ih
      · rwa [Nat.add_right_comm, Nat.add_assoc]
      · rw [width_succ]
        omega
    rw [position, parent]
    omega

example : (List.range 8).map (position 5 3 0) = [0, 1, 2, 3, 4, 4, 4, 4] := by decide

example : (List.range 8).map (position 6 3 0) = [0, 1, 2, 3, 4, 5, 4, 5] := by decide

end Merkle.Tree
