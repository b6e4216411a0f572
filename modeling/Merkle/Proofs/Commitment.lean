import Merkle.Proofs.Binding
import Merkle.Proofs.Levels

/-!
# Commitment: which lists of leaves share a root

Padding written out in full makes a list of `2 ^ d` leaves (`expand`) with the same root. Trees of
one depth and one root have the same full list, or two different pairs of children at one same place
with one digest: nothing but padding makes two lists share a root (`root_commits`).
-/
namespace Merkle.Tree

/-- The leaf that each index of the full tree stands for. -/
def expand (leaves : List Digest) (nonempty : leaves ≠ []) : List Digest :=
  List.ofFn fun index : Fin (2 ^ depth leaves.length) =>
    have inside : position leaves.length (depth leaves.length) 0 index.val < leaves.length := by
      have within := position_lt_width (List.length_pos_iff.mpr nonempty) (depth leaves.length) 0
        index.val
      rwa [width_zero] at within
    leaves[position leaves.length (depth leaves.length) 0 index.val]

namespace Level

/-- The pairs of children of the level above, left to right; a last node without a partner is left
out. -/
def pairs (level : Level) : List (Digest × Digest) :=
  List.ofFn fun index : Fin (level.size / 2) =>
    have := index.isLt
    (level[2 * index.val], level[2 * index.val + 1])

/-- The level `full` is `level` with all padding up to `2 ^ above` nodes written out. -/
structure Spreads (above : Nat) (full level : Level) : Prop where
  size_eq : full.size = 2 ^ above
  node_eq : ∀ index, index < 2 ^ above → full[index]? = level[position level.size above 0 index]?

variable {hasher : Hasher} {level full : Level}

theorem toList_fold_of_even (even : level.size % 2 = 0) :
    (level.fold hasher).toList = level.pairs.map fun p => hasher.pair p.1 p.2 := by
  apply List.ext_getElem?
  intro j
  rw [Array.getElem?_toList, List.getElem?_map, pairs, List.getElem?_ofFn]
  by_cases inside : j < level.size / 2
  · have right : min (2 * j + 1) (level.size - 1) = 2 * j + 1 := by omega
    rw [getElem?_fold hasher level j (by omega) (by omega), dif_pos inside]
    simp only [right, Option.map_some]
  · rw [Array.getElem?_eq_none (by rw [size_fold]; omega), dif_neg inside]
    rfl

theorem eq_of_pairs_eq {a b : Level} (same : a.size = b.size) (even : a.size % 2 = 0)
    (equal : a.pairs = b.pairs) : a = b := by
  apply Array.ext same
  intro i inside inside'
  have here := congrArg (fun pairs : List (Digest × Digest) => pairs[i / 2]?) equal
  simp only [pairs, List.getElem?_ofFn] at here
  rw [dif_pos (by omega), dif_pos (by omega)] at here
  simp only [Option.some.injEq, Prod.mk.injEq] at here
  rcases Nat.mod_two_eq_zero_or_one i with left | right
  · have own : 2 * (i / 2) = i := by omega
    simpa only [own] using here.1
  · have own : 2 * (i / 2) + 1 = i := by omega
    simpa only [own] using here.2

end Level

variable {hasher : Hasher}

/-- Lists of pairs with the same digests are the same, or collide somewhere. -/
theorem eq_or_collide_of_map_eq {ps qs : List (Digest × Digest)}
    (digests : ps.map (fun p => hasher.pair p.1 p.2) = qs.map fun p => hasher.pair p.1 p.2) :
    ps = qs ∨ Collide hasher ps qs := by
  induction ps generalizing qs with
  | nil =>
    cases qs with
    | nil => exact .inl rfl
    | cons q qs => simp at digests
  | cons p ps ih =>
    cases qs with
    | nil => simp at digests
    | cons q qs =>
      simp only [List.map_cons, List.cons.injEq] at digests
      by_cases equal : p = q
      · rcases ih digests.2 with rest | collide
        · exact .inl (by rw [equal, rest])
        · exact .inr (collide.tail p q)
      · exact .inr (.head equal digests.1)

/-- One level down: parents that are equal have equal children, or collide. -/
theorem Level.eq_or_collide_of_fold_eq {a b : Level} (same : a.size = b.size)
    (even : a.size % 2 = 0) (parents : a.fold hasher = b.fold hasher) :
    a = b ∨ Collide hasher a.pairs b.pairs := by
  have digests := congrArg Array.toList parents
  rw [toList_fold_of_even even, toList_fold_of_even (by omega)] at digests
  rcases eq_or_collide_of_map_eq digests with equal | collide
  · exact .inl (eq_of_pairs_eq same even equal)
  · exact .inr collide

/-- From the root down to full levels: the levels are the same, or collide at some height. -/
theorem Level.eq_or_collide_of_rise_eq {above : Nat} {a b : Level} (full : a.size = 2 ^ above)
    (full' : b.size = 2 ^ above) (top : (a.rise hasher above)[0]? = (b.rise hasher above)[0]?) :
    a = b ∨ ∃ height, height < above ∧
      Collide hasher (a.rise hasher height).pairs (b.rise hasher height).pairs := by
  induction above generalizing a b with
  | zero =>
    rw [Nat.pow_zero] at full full'
    simp only [rise_zero, Array.getElem?_eq_getElem (show 0 < a.size by omega),
      Array.getElem?_eq_getElem (show 0 < b.size by omega), Option.some.injEq] at top
    refine .inl (Array.ext (full.trans full'.symm) ?_)
    intro i inside inside'
    obtain rfl : i = 0 := by omega
    exact top
  | succ above ih =>
    rw [Nat.pow_succ'] at full full'
    rw [← rise_fold, ← rise_fold] at top
    rcases ih (by rw [size_fold]; omega) (by rw [size_fold]; omega) top with
      parents | ⟨height, lower, collide⟩
    · rcases eq_or_collide_of_fold_eq (full.trans full'.symm) (by omega) parents with
        equal | collide
      · exact .inl equal
      · exact .inr ⟨0, by omega, collide⟩
    · rw [rise_fold, rise_fold] at collide
      exact .inr ⟨height + 1, by omega, collide⟩

/-- Writing out the padding commutes with folding. -/
theorem Level.Spreads.fold {above : Nat} {full level : Level} (nonempty : 0 < level.size)
    (spreads : Spreads (above + 1) full level) :
    Spreads above (full.fold hasher) (level.fold hasher) := by
  obtain ⟨size_eq, node_eq⟩ := spreads
  rw [Nat.pow_succ'] at size_eq node_eq
  refine ⟨by rw [size_fold]; omega, ?_⟩
  intro index inside
  have parent := position_lt_width nonempty above 1 index
  rw [width_succ, width_zero] at parent
  have left := node_eq (2 * index) (by omega)
  have right := node_eq (2 * index + 1) (by omega)
  rw [position_left nonempty, Nat.zero_add, Array.getElem?_eq_getElem (by omega),
    Array.getElem?_eq_getElem (by omega), Option.some.injEq] at left
  rw [position_right, width_zero, Nat.zero_add, Array.getElem?_eq_getElem (by omega),
    Array.getElem?_eq_getElem (by omega), Option.some.injEq] at right
  have unpadded : min (2 * index + 1) (full.size - 1) = 2 * index + 1 := by omega
  rw [size_fold, position_parents, getElem?_fold hasher full index (by omega) (by omega),
    getElem?_fold hasher level _ (by omega) (by omega)]
  simp only [unpadded, left, right]

theorem Level.Spreads.rise {above : Nat} {full level : Level} (nonempty : 0 < level.size)
    (spreads : Spreads above full level) :
    (full.rise hasher above)[0]? = (level.rise hasher above)[0]? := by
  induction above generalizing full level with
  | zero => exact spreads.node_eq 0 (by decide)
  | succ above ih =>
    rw [← rise_fold, ← rise_fold]
    exact ih (by rw [size_fold]; omega) (spreads.fold nonempty)

variable {leaves : List Digest}

@[simp] theorem length_expand (nonempty : leaves ≠ []) :
    (expand leaves nonempty).length = 2 ^ depth leaves.length := by
  simp [expand]

theorem expand_ne_nil (nonempty : leaves ≠ []) : expand leaves nonempty ≠ [] := by
  apply List.length_pos_iff.mp
  rw [length_expand]
  exact Nat.two_pow_pos _

theorem getElem?_expand (nonempty : leaves ≠ []) {index : Nat}
    (inside : index < 2 ^ depth leaves.length) :
    (expand leaves nonempty)[index]? =
      leaves[position leaves.length (depth leaves.length) 0 index]? := by
  rw [expand, List.getElem?_ofFn, dif_pos inside]
  exact (List.getElem?_eq_getElem _).symm

theorem spreads_expand (nonempty : leaves ≠ []) :
    Level.Spreads (depth leaves.length) (expand leaves nonempty).toArray leaves.toArray := by
  refine ⟨by simp, ?_⟩
  intro index inside
  rw [List.getElem?_toArray, List.getElem?_toArray, getElem?_expand nonempty inside,
    List.size_toArray]

theorem depth_expand (nonempty : leaves ≠ []) :
    depth (expand leaves nonempty).length = depth leaves.length := by
  rw [length_expand]
  exact Nat.clog_pow 2 _ (by decide)

/-- The full list has the same root. -/
theorem root_expand_eq (hasher : Hasher) (nonempty : leaves ≠ []) :
    root hasher (expand leaves nonempty) = root hasher leaves := by
  have top : (levelAt hasher (expand leaves nonempty) (depth leaves.length))[0]? =
      (levelAt hasher leaves (depth leaves.length))[0]? :=
    (spreads_expand nonempty).rise (size_toArray_pos nonempty)
  rw [getElem?_levelAt_depth nonempty, ← depth_expand nonempty,
    getElem?_levelAt_depth (expand_ne_nil nonempty)] at top
  exact Option.some.inj top

/-- Before the padding starts, the full list is the list. -/
theorem getElem?_expand_of_lt (nonempty : leaves ≠ []) {index : Nat}
    (inside : index < leaves.length) : (expand leaves nonempty)[index]? = leaves[index]? := by
  have within : index < 2 ^ depth leaves.length :=
    Nat.lt_of_lt_of_le inside (depth_le_iff.mp (Nat.le_refl _))
  have top := width_depth (List.length_pos_iff.mpr nonempty)
  rw [getElem?_expand nonempty within, position_eq (by rwa [Nat.zero_add]) (by rwa [width_zero])]

/-- Full lists of one length and one root are the same, or collide at some height. -/
theorem expand_eq_or_collide {a b : List Digest} (nonempty : a ≠ []) (nonempty' : b ≠ [])
    (same : depth a.length = depth b.length) (roots : root hasher a = root hasher b) :
    expand a nonempty = expand b nonempty' ∨
      ∃ height, height < depth a.length ∧
        Collide hasher (levelAt hasher (expand a nonempty) height).pairs
          (levelAt hasher (expand b nonempty') height).pairs := by
  have top : (levelAt hasher (expand a nonempty) (depth a.length))[0]? =
      (levelAt hasher (expand b nonempty') (depth a.length))[0]? := by
    rw [← depth_expand nonempty, getElem?_levelAt_depth (expand_ne_nil nonempty), depth_expand,
      same, ← depth_expand nonempty', getElem?_levelAt_depth (expand_ne_nil nonempty'),
      root_expand_eq, root_expand_eq, roots]
  rcases Level.eq_or_collide_of_rise_eq (spreads_expand nonempty).size_eq
    (same ▸ (spreads_expand nonempty').size_eq) top with equal | collide
  · exact .inl (congrArg Array.toList equal)
  · exact .inr collide

/-- What a root commits to: a list with its padding written out keeps its root; lists of one depth
and one root have the same padded list, and lists of one length and one root are the same, unless at
one place of the full trees two different pairs of children have one digest. -/
theorem root_commits (hasher : Hasher) :
    (∀ (leaves : List Digest) (nonempty : leaves ≠ []),
      root hasher (expand leaves nonempty) = root hasher leaves) ∧
    (∀ (a b : List Digest) (nonempty : a ≠ []) (nonempty' : b ≠ []),
      depth a.length = depth b.length → root hasher a = root hasher b →
        expand a nonempty = expand b nonempty' ∨
          ∃ height, height < depth a.length ∧
            Collide hasher (levelAt hasher (expand a nonempty) height).pairs
              (levelAt hasher (expand b nonempty') height).pairs) ∧
    (∀ (a b : List Digest) (nonempty : a ≠ []) (nonempty' : b ≠ []),
      a.length = b.length → root hasher a = root hasher b →
        a = b ∨
          ∃ height, height < depth a.length ∧
            Collide hasher (levelAt hasher (expand a nonempty) height).pairs
              (levelAt hasher (expand b nonempty') height).pairs) := by
  refine ⟨fun _ => root_expand_eq hasher, fun _ _ => expand_eq_or_collide, ?_⟩
  intro a b nonempty nonempty' same roots
  rcases expand_eq_or_collide nonempty nonempty' (congrArg depth same) roots with equal | collide
  · left
    apply List.ext_getElem same
    intro index inside inside'
    have here := getElem?_expand_of_lt nonempty inside
    rw [equal, getElem?_expand_of_lt nonempty' inside', List.getElem?_eq_getElem inside,
      List.getElem?_eq_getElem inside'] at here
    exact (Option.some.inj here).symm
  · exact .inr collide

/-- Three leaves, and the same with the last one written twice. -/
theorem root_commits_three_and_four :
    let a := [filled 1, filled 2, filled 3]
    let b := [filled 1, filled 2, filled 3, filled 3]
    ∃ (nonempty : a ≠ []) (nonempty' : b ≠ []),
      depth a.length = depth b.length ∧ root .sha256 a = root .sha256 b ∧
        (expand a nonempty = expand b nonempty' ∨
          ∃ height, height < depth a.length ∧
            Collide .sha256 (levelAt .sha256 (expand a nonempty) height).pairs
              (levelAt .sha256 (expand b nonempty') height).pairs) := by
  intro a b
  have nonempty : a ≠ [] := by decide
  have nonempty' : b ≠ [] := by decide
  have same : depth a.length = depth b.length := by decide
  have written_out : ∀ present : a ≠ [], expand a present = b := by decide
  have roots : root .sha256 a = root .sha256 b := by
    rw [← (root_commits .sha256).1 a nonempty, written_out nonempty]
  exact ⟨nonempty, nonempty', same, roots,
    (root_commits .sha256).2.1 a b nonempty nonempty' same roots⟩

end Merkle.Tree
