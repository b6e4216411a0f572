import Merkle.Hasher

/-!
# Levels: the nodes of a tree at one height, left to right

The depth of a tree of `n` leaves, the levels between leaves and root, is the least `d` with
`n ≤ 2 ^ d`; it is computed in five steps. A level is replaced by its parents in one buffer, and
where it is odd, its last node is paired with a copy of itself. What the buffer holds in the end is
`parents`, a function of the level as it was before (`Level.toList_fold`).
-/
namespace Merkle.Tree

/-! ## Depths -/

/-- Levels that any 32-bit index can need. -/
def maxDepth : Nat := 32

/-- Leaves that 32-bit indices tell apart, less one: the greatest count that is itself 32-bit. -/
def maxLeaves : Nat := UInt32.size - 1

/-- Each step looks for a bit in the upper half of what is left, which has twice `exponent` bits. -/
structure Halving where
  mask : UInt32
  exponent : UInt8
  deriving DecidableEq, Repr

/-- From sixteen bits down to one. -/
def halvings : List Halving :=
  [⟨0xffff0000, 16⟩, ⟨0xff00, 8⟩, ⟨0xf0, 4⟩, ⟨0xc, 2⟩, ⟨0x2, 1⟩]

/-- What is left of the number, and the logarithm so far. -/
structure Descent where
  number : UInt32
  log : UInt8
  deriving DecidableEq, Repr

/-- Moves the upper half down if it holds a bit. -/
def Descent.step (d : Descent) (halving : Halving) : Descent :=
  if d.number &&& halving.mask ≠ 0 then
    ⟨d.number >>> halving.exponent.toUInt32, d.log + halving.exponent⟩
  else d

/-- The count starts at one unless the number is a power of two. -/
def Descent.start (n : UInt32) : Descent := ⟨n, if n &&& (n - 1) ≠ 0 then 1 else 0⟩

/-- The logarithm to base two of a positive number, rounded up. -/
def ceilLog2 (n : UInt32) : UInt8 := (halvings.foldl Descent.step (.start n)).log

/-- The greatest leaf index below `2 ^ depth`; depths beyond `maxDepth` are not asked for. -/
def lastIndex (depth : Nat) : UInt64 := (1 <<< UInt64.ofNat depth) - 1

/-- A number as a leaf index, if it fits 32 bits. -/
def toIndex? (n : UInt64) : Option UInt32 := if n ≤ 0xffffffff then some n.toUInt32 else none

/-! ## Folding -/

/-- The nodes of one height. -/
abbrev Level := Array Digest

namespace Level

/-- An odd level with its last node written once more; an even level as it is. -/
def pad (level : Level) : Level :=
  if odd : level.size % 2 = 1 then level.push level[level.size - 1] else level

/-- The buffer after parent `i` has been written over slot `i`, for each `i` below `count` in turn.
Its children stand in slots `2 * i` and `2 * i + 1`. -/
def foldSlots (hasher : Hasher) {size : Nat} (count : Nat) (fits : 2 * count ≤ size)
    (slots : Vector Digest size) : Vector Digest size :=
  Fin.foldl count
    (fun slots i =>
      have := i.isLt
      slots.set i.val (hasher.pair slots[2 * i.val] slots[2 * i.val + 1]))
    slots

/-- The parents of the pairs of a level, in its first half; a last node without a partner has none.
-/
def foldPairs (hasher : Hasher) (level : Level) : Level :=
  let half := level.size / 2
  (foldSlots hasher half (Nat.mul_div_le _ 2) level.toVector).toArray.shrink half

/-- The level above. -/
def fold (hasher : Hasher) (level : Level) : Level := foldPairs hasher level.pad

@[simp] theorem size_pad (level : Level) : level.pad.size = 2 * ((level.size + 1) / 2) := by
  unfold pad
  split
  · rw [Array.size_push]
    omega
  · omega

@[simp] theorem size_fold (hasher : Hasher) (level : Level) :
    (level.fold hasher).size = (level.size + 1) / 2 := by
  simp only [fold, foldPairs, Array.size_shrink, Vector.size_toArray, size_pad]
  omega

@[simp] theorem pad_pad (level : Level) : level.pad.pad = level.pad := by
  have even : ¬ level.pad.size % 2 = 1 := by
    rw [size_pad]
    omega
  rw [pad, dif_neg even]

/-- Padding beforehand changes nothing. -/
@[simp] theorem fold_pad (hasher : Hasher) (level : Level) :
    level.pad.fold hasher = level.fold hasher := by
  rw [fold, fold, pad_pad]

end Level

/-! ## Parents -/

/-- The level above, pair by pair. -/
def parents (hasher : Hasher) : List Digest → List Digest
  | [] => []
  | [last] => [hasher.pair last last]
  | left :: right :: rest => hasher.pair left right :: parents hasher rest

@[simp] theorem length_parents (hasher : Hasher) (level : List Digest) :
    (parents hasher level).length = (level.length + 1) / 2 := by
  fun_induction parents hasher level with
  | case1 => rfl
  | case2 => simp only [List.length_singleton, Nat.reduceAdd, Nat.reduceDiv]
  | case3 left right rest ih =>
    simp only [List.length_cons, ih]
    omega

/-- Each parent comes from two neighbours; the last node stands in for a neighbour that is missing.
-/
theorem getElem?_parents (hasher : Hasher) (level : List Digest) (j : Nat)
    (inside : 2 * j < level.length) (right : min (2 * j + 1) (level.length - 1) < level.length) :
    (parents hasher level)[j]? =
      some (hasher.pair level[2 * j] level[min (2 * j + 1) (level.length - 1)]) := by
  fun_induction parents hasher level generalizing j with
  | case1 => simp at inside
  | case2 last =>
    obtain rfl : j = 0 := by
      simp only [List.length_singleton] at inside
      omega
    rfl
  | case3 left last rest ih =>
    cases j with
    | zero => simp
    | succ j =>
      simp only [List.length_cons] at inside right
      rw [List.getElem?_cons_succ, ih j (by omega) (by omega)]
      congr 2
      simp only [List.length_cons, show min (2 * (j + 1) + 1) (rest.length + 1 + 1 - 1)
        = min (2 * j + 1) (rest.length - 1) + 1 + 1 by omega, List.getElem_cons_succ]

namespace Level

theorem foldSlots_succ (hasher : Hasher) {size : Nat} (count : Nat) (fits : 2 * (count + 1) ≤ size)
    (slots : Vector Digest size) :
    foldSlots hasher (count + 1) fits slots =
      let earlier := foldSlots hasher count (by omega) slots
      earlier.set count (hasher.pair earlier[2 * count] earlier[2 * count + 1]) := by
  unfold foldSlots
  rw [Fin.foldl_succ_last]
  rfl

/-- A slot below `count` holds the parent of two slots as they were at first, every other slot what
it held: none is written before it has been read for the last time. -/
theorem getElem_foldSlots (hasher : Hasher) {size : Nat} (count : Nat) (fits : 2 * count ≤ size)
    (slots : Vector Digest size) (j : Nat) (inside : j < size) :
    (foldSlots hasher count fits slots)[j] =
      if below : j < count then hasher.pair slots[2 * j] slots[2 * j + 1] else slots[j] := by
  induction count generalizing j with
  | zero => simp [foldSlots]
  | succ count ih =>
    rw [foldSlots_succ]
    by_cases last : j = count
    · subst last
      rw [dif_pos (Nat.lt_succ_self j), Vector.getElem_set_self, ih (by omega) (2 * j) (by omega),
        ih (by omega) (2 * j + 1) (by omega), dif_neg (by omega), dif_neg (by omega)]
    · rw [Vector.getElem_set_ne _ _ (by omega), ih (by omega)]
      by_cases below : j < count
      · rw [dif_pos below, dif_pos (by omega)]
      · rw [dif_neg below, dif_neg (by omega)]

@[simp] theorem size_foldPairs (hasher : Hasher) (level : Level) :
    (foldPairs hasher level).size = level.size / 2 := by
  simp only [foldPairs, Array.size_shrink, Vector.size_toArray]
  omega

theorem getElem?_foldPairs (hasher : Hasher) (level : Level) (j : Nat)
    (inside : 2 * j + 1 < level.size) :
    (foldPairs hasher level)[j]? = some (hasher.pair level[2 * j] level[2 * j + 1]) := by
  have below : j < level.size / 2 := by omega
  rw [Array.getElem?_eq_getElem (by rw [size_foldPairs]; exact below)]
  simp only [foldPairs, Array.getElem_shrink, Vector.getElem_toArray]
  rw [getElem_foldSlots, dif_pos below]
  rfl

theorem getElem_pad (level : Level) (j : Nat) (inside : j < level.pad.size)
    (last : min j (level.size - 1) < level.size) :
    level.pad[j] = level[min j (level.size - 1)] := by
  by_cases odd : level.size % 2 = 1
  · have eq : level.pad = level.push level[level.size - 1] := by rw [pad, dif_pos odd]
    simp only [eq, Array.getElem_push]
    split
    · congr 1
      omega
    · congr 1
      omega
  · have eq : level.pad = level := by rw [pad, dif_neg odd]
    rw [size_pad] at inside
    simp only [eq]
    congr 1
    omega

/-- Folding in one buffer gives the parents of the level as it was before. -/
theorem getElem?_fold (hasher : Hasher) (level : Level) (j : Nat) (inside : 2 * j < level.size)
    (right : min (2 * j + 1) (level.size - 1) < level.size) :
    (level.fold hasher)[j]? =
      some (hasher.pair level[2 * j] level[min (2 * j + 1) (level.size - 1)]) := by
  rw [fold, getElem?_foldPairs hasher level.pad j (by rw [size_pad]; omega),
    getElem_pad level (2 * j + 1) _ right, getElem_pad level (2 * j) _ (by omega)]
  congr 3
  omega

/-- The list view of folding. -/
theorem toList_fold (hasher : Hasher) (level : Level) :
    (level.fold hasher).toList = parents hasher level.toList := by
  apply List.ext_getElem?
  intro j
  by_cases inside : 2 * j < level.size
  · rw [Array.getElem?_toList, getElem?_fold hasher level j inside (by omega),
      getElem?_parents hasher level.toList j (by simpa using inside)
        (by simp only [Array.length_toList]; omega)]
    simp only [Array.getElem_toList, Array.length_toList]
  · rw [List.getElem?_eq_none (by simp only [Array.length_toList, size_fold]; omega),
      List.getElem?_eq_none (by simp only [length_parents, Array.length_toList]; omega)]

end Level

end Merkle.Tree
